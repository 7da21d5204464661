import RpkiAuthority.Proofs.Engine.Verdict

/-!
# Authorities under other names

The number that an authority is known by, and the number drawn when it was created, are names. What
a command does to an authority does not depend on them (`Command.effect_called`): under other names
there is the same effect, on an authority under these names, with the same events. So what the
sender of the command is told is the same but for the names (`Command.told_called`).
-/

namespace RpkiAuthority

/-! ### Names -/

/-- The authority under other names. -/
def CertificateAuthority.called (ca : CertificateAuthority) (id : AggregateId) (uuid : Uuid) :
    CertificateAuthority :=
  { ca with id := id, uuid := uuid }

/-- The same command about another authority, based on the same version. -/
def Command.about (c : Command) (id : AggregateId) : Command :=
  { c with authority := ⟨id, c.authority.version⟩ }

/-- The record without the name of the authority and without its own number, time and mark. -/
def CommandRecord.nameless (r : CommandRecord) : CommandRecord :=
  { r with id := 0, executedAt := .epoch, authority := ⟨0, r.authority.version⟩, deletedAt := none }

/-- The error without the name of the authority. -/
def CommandError.nameless : CommandError → CommandError
  | .unknownAuthority _ => .unknownAuthority 0
  | .authorityExists _ => .authorityExists 0
  | .concurrentModification _ current version conflicting =>
    .concurrentModification 0 current version (conflicting.map CommandRecord.nameless)
  | err => err

/-- **What is told without the name** of the authority: whether there was an effect, the version,
and the error. -/
def CommandStatus.nameless : Except CommandError CommandStatus → Except CommandError CommandStatus
  | .ok status => .ok ⟨status.hasEffect, ⟨0, status.authority.version⟩⟩
  | .error err => .error err.nameless

theorem CommandError.nameless_eq_noEffect {err : CommandError} (h : err.nameless = .noEffect) :
    err = .noEffect := by
  cases err <;> first | rfl | exact absurd h (by simp [nameless])

/-! ### What lapses -/

namespace CertificateAuthority

variable (ca : CertificateAuthority) (id : AggregateId) (uuid : Uuid)

theorem dropLapsedEntries_called :
    (ca.called id uuid).dropLapsedEntries = ca.dropLapsedEntries.called id uuid := by
  have hlapsed : (ca.called id uuid).lapsedEntries = ca.lapsedEntries := rfl
  rw [dropLapsedEntries, dropLapsedEntries, hlapsed]
  split <;> rfl

theorem dropLapsedRoutes_called :
    (ca.called id uuid).dropLapsedRoutes = ca.dropLapsedRoutes.called id uuid := by
  have hlapsed : (ca.called id uuid).lapsedRoutes = ca.lapsedRoutes := rfl
  rw [dropLapsedRoutes, dropLapsedRoutes, hlapsed]
  split <;> rfl

theorem maintained_called : (ca.called id uuid).maintained = ca.maintained.called id uuid := by
  rw [maintained, dropLapsedEntries_called, dropLapsedRoutes_called, maintained]

/-- The texts of events do not name the authority. -/
theorem map_text_lapseEvents_called (v v' : VersionedId) :
    ((ca.called id uuid).lapseEvents v').map AuthorityEvent.text =
      (ca.lapseEvents v).map AuthorityEvent.text := by
  have hentries : (ca.called id uuid).lapsedEntries = ca.lapsedEntries := rfl
  have hroutes : (ca.called id uuid).dropLapsedEntries.lapsedRoutes =
      ca.dropLapsedEntries.lapsedRoutes := by
    rw [dropLapsedEntries_called]
    rfl
  rw [lapseEvents, lapseEvents, hentries, hroutes, List.map_append, List.map_append]
  congr 1 <;> split <;> rfl

end CertificateAuthority

/-! ### Effects -/

/-- **The same is to happen** to an authority under other names. -/
inductive SameRuling (id : AggregateId) :
    Except CommandError Change → Except CommandError Change → Prop
  | refused {err err' : CommandError} (same : err'.nameless = err.nameless) :
      SameRuling id (.error err) (.error err')
  | changed {change change' : Change} (uuid : Uuid)
      (authority : change'.authority = change.authority.map (·.called id uuid))
      (events : change'.events.map AuthorityEvent.text = change.events.map AuthorityEvent.text) :
      SameRuling id (.ok change) (.ok change')

namespace SameRuling

variable {id : AggregateId} {ca : CertificateAuthority} {uuid : Uuid}

theorem of_error (err : CommandError) : SameRuling id (.error err) (.error err) := .refused rfl

/-- Where there is nothing to do, that does not depend on names either. -/
theorem ite {p : Prop} [Decidable p] {err : CommandError} {effect effect' : Effect}
    (h : SameRuling id effect.outcome effect'.outcome) :
    SameRuling id (if p then Effect.fails err else effect).outcome
      (if p then Effect.fails err else effect').outcome := by
  split
  · exact .of_error err
  · exact h

/-- A change without events. -/
theorem changes (ca : CertificateAuthority) (uuid : Uuid) :
    SameRuling id (Effect.changes ca).outcome (Effect.changes (ca.called id uuid)).outcome :=
  .changed uuid rfl rfl

/-- A change of the certificates. -/
theorem certificates (found changed : CertificateAuthority) (uuid : Uuid) (id₀ : AggregateId)
    {event event' : VersionedId → AuthorityEvent}
    (hevent : ∀ v v', (event' v').text = (event v).text) :
    SameRuling id (Effect.certificates id₀ found changed event).outcome
      (Effect.certificates id (found.called id uuid) (changed.called id uuid) event').outcome := by
  refine .changed uuid (congrArg some (changed.maintained_called id uuid)) ?_
  rw [List.map_cons, List.map_cons, changed.map_text_lapseEvents_called, hevent]

end SameRuling

/-- The version after a change does not depend on names. -/
theorem Change.version_called {id : AggregateId} {change change' : Change} {uuid : Uuid}
    (h : change'.authority = change.authority.map (·.called id uuid))
    (found : Option CertificateAuthority) (called : Uuid) :
    change'.version (found.map (·.called id called)) = change.version found := by
  cases found with
  | none => rfl
  | some ca =>
    rw [Option.map_some, version, version, h, Option.isSome_map]
    rfl

namespace Command

variable (c : Command) (id : AggregateId)

/-- **Effects do not depend on names.** -/
theorem effect_called (uuid uuid' called : Uuid) (found : Option CertificateAuthority) :
    SameRuling id (c.effect uuid found).outcome
      ((c.about id).effect uuid' (found.map (·.called id called))).outcome := by
  obtain ⟨authority, actor, details⟩ := c
  cases found with
  | none =>
    cases details with
    | createCertificateAuthority name => exact .changed uuid' rfl rfl
    | _ => exact .refused rfl
  | some ca =>
    cases details with
    | createCertificateAuthority name => exact .refused rfl
    | deleteCertificateAuthority => exact .changed called rfl rfl
    | subscribeToRoaAlert email states frequency => exact .changes _ called
    | updateIncomingCertificate key resources =>
      exact .ite (.certificates ca (ca.setIncoming key resources) called _ fun _ _ => rfl)
    | revokeIncomingCertificate key =>
      exact .ite (.certificates ca (ca.removeIncoming key) called _ fun _ _ => rfl)
    | unsubscribeFromRoaAlert email notify => exact .ite (.changed called rfl rfl)
    | updateRoaAlertIgnoredAnnouncedRoutes additions deletions =>
      exact .ite (.changes _ called)
    | updateAspaConfiguration ifMatch entries known =>
      -- the configuration asked for is checked against what both authorities have in common
      have hsame : Handlers.newConfiguration (ca.called id called) ifMatch entries =
        Handlers.newConfiguration ca ifMatch entries := rfl
      rw [Option.map_some, effect, effect]
      dsimp only [about]
      rw [hsame]
      cases Handlers.newConfiguration ca ifMatch entries with
      | error err => exact .of_error err
      | ok updated => exact .changes _ called

/-- **What is told does not depend on names** either. -/
theorem told_called {ruling ruling' : Except CommandError Change}
    (h : SameRuling id ruling ruling') (found : Option CertificateAuthority) (called : Uuid) :
    CommandStatus.nameless ((c.about id).told (found.map (·.called id called)) ruling') =
      CommandStatus.nameless (c.told found ruling) := by
  have hversions : (found.map (·.called id called)).map CertificateAuthority.version =
      found.map CertificateAuthority.version := by
    cases found <;> rfl
  cases h with
  | @refused err err' same =>
    by_cases herr : err = .noEffect
    · subst herr
      obtain rfl := CommandError.nameless_eq_noEffect same
      rw [told, told, hversions]
      rfl
    · have herr' : err' ≠ .noEffect := by
        rintro rfl
        exact herr (CommandError.nameless_eq_noEffect same.symm)
      rw [told_error herr, told_error herr']
      exact congrArg Except.error same
  | @changed change change' uuid authority events =>
    rw [told, told, Change.version_called authority]
    rfl

end Command

end RpkiAuthority
