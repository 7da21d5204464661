import RpkiAuthority.Proofs.Engine.Undisturbed
import RpkiAuthority.Proofs.Engine.Executed

/-!
# The verdict on a command

Where nothing stands in the way of a command, what becomes of it can be read off the world: it is
refused if it is based on an old version or cannot be allowed, and otherwise its effect on the
authority decides (`Command.ruling`). What its sender is told, and what is committed, are functions
of that. No error that a ruling can give is one to try again after.
-/

namespace RpkiAuthority

variable {X : Interface} {S : Type}

/-- Whether an error is about what others do or did. -/
def CommandError.isInterference : CommandError → Bool
  | .storage _ | .concurrentModification _ _ _ _ => true
  | _ => false

theorem CommandError.isTransient_eq_false {err : CommandError} (h : err.isInterference = false) :
    err.isTransient = false := by
  cases err with
  | storage e => exact absurd h (by simp [isInterference])
  | _ => rfl

namespace Command

/-- **The ruling on a command**: the change it makes, or why it makes none. -/
def ruling (c : Command) (w : World S) : Except CommandError Change :=
  match (c.stale w).or c.refusal with
  | some err => .error err
  | none => (c.effect (c.drawn w) (w.store.get? c.authority.id)).outcome

/-- What the sender of a command is told. That there was nothing to do is no error. -/
def told (c : Command) (found : Option CertificateAuthority) :
    Except CommandError Change → Except CommandError CommandStatus
  | .ok change => .ok ⟨true, ⟨c.authority.id, change.version found⟩⟩
  | .error .noEffect => .ok ⟨false, ⟨c.authority.id,
      (found.map CertificateAuthority.version).getD c.authority.version⟩⟩
  | .error err => .error err

theorem told_error {c : Command} {err : CommandError} (h : err ≠ .noEffect)
    (found : Option CertificateAuthority) :
    c.told found (.error err) = .error err := by
  cases err <;> first | rfl | exact absurd rfl h

/-- What is committed after a ruling. -/
def leaves (c : Command) (w : World S) :
    Except CommandError Change → OrdMap AggregateId CertificateAuthority × AuditLog
  | .ok change =>
    (c.writes (change.version (w.store.get? c.authority.id)) change w.store.aggregates,
      c.recordsIn (change.version (w.store.get? c.authority.id)) change w.now w.audit)
  | .error _ => w.committed

/-- **The verdict on a command**, as its sender is told it. -/
def verdict (c : Command) (w : World S) : Except CommandError CommandStatus :=
  c.told (w.store.get? c.authority.id) (c.ruling w)

variable {c : Command} {w u : World S}

theorem leaves_of_same (h : w.SameCommitted u) (c : Command) (ruling : Except CommandError Change) :
    c.leaves u ruling = c.leaves w ruling := by
  cases ruling with
  | ok change => rw [leaves, leaves, h.get?, h.aggregates, h.audit, h.now]
  | error err => rw [leaves, leaves, World.committed, World.committed, h.aggregates, h.audit]

/-! ### Errors of rulings -/

theorem newConfiguration_isInterference {ca : CertificateAuthority} {ifMatch : Option String}
    {entries : List AspaEntry} {err : CommandError}
    (h : Handlers.newConfiguration ca ifMatch entries = .error err) :
    err.isInterference = false := by
  unfold Handlers.newConfiguration at h
  split at h
  · exact Except.error.inj h ▸ rfl
  · split at h
    · exact Except.error.inj h ▸ rfl
    · split at h
      · exact Except.error.inj h ▸ rfl
      · split at h
        · next hcheck =>
          obtain rfl := Except.error.inj h
          unfold Handlers.checkEntries at hcheck
          dsimp only at hcheck
          split at hcheck
          · exact Except.error.inj hcheck ▸ rfl
          · split at hcheck
            · exact Except.error.inj hcheck ▸ rfl
            · split at hcheck
              · exact absurd hcheck (by simp)
              · exact Except.error.inj hcheck ▸ rfl
        · split at h
          · exact Except.error.inj h ▸ rfl
          · exact absurd h (by simp)

/-- What a command does to the authority it finds is up to nobody else. -/
theorem effect_isInterference {uuid : Uuid} {found : Option CertificateAuthority}
    {err : CommandError} (h : (c.effect uuid found).outcome = .error err) :
    err.isInterference = false := by
  cases found with
  | none =>
    rw [effect] at h
    split at h
    · exact absurd h (by simp)
    · exact Except.error.inj h ▸ rfl
  | some ca =>
    rw [effect] at h
    cases hd : c.details with
    | createCertificateAuthority name =>
      rw [hd] at h
      exact Except.error.inj h ▸ rfl
    | subscribeToRoaAlert email states frequency =>
      rw [hd] at h
      exact absurd h (by simp [Effect.changes])
    | deleteCertificateAuthority =>
      rw [hd] at h
      exact absurd h (by simp)
    | updateAspaConfiguration ifMatch entries changes =>
      rw [hd] at h
      dsimp only at h
      split at h
      · next hrefused => exact Except.error.inj h ▸ newConfiguration_isInterference hrefused
      · exact absurd h (by simp [Effect.changes])
    | updateIncomingCertificate | revokeIncomingCertificate | unsubscribeFromRoaAlert
    | updateRoaAlertIgnoredAnnouncedRoutes =>
      rw [hd] at h
      dsimp only at h
      split at h
      · exact Except.error.inj h ▸ rfl
      · exact absurd h (by simp [Effect.changes, Effect.certificates])

/-- The records of other users' commands that a command does not know of. -/
def unknownRecords (c : Command) (w : World S) : List CommandRecord :=
  (w.audit.since c.authority).filter fun r => r.group == .user

/-- **When a command is stale**: a user sent it, it is based on an old version, and users have
changed the authority since. The error names the records of what they did. -/
theorem stale_eq_some_iff {err : CommandError} :
    c.stale w = some err ↔ c.group ≠ .system ∧ ∃ ca, w.store.get? c.authority.id = some ca ∧
      c.authority.version < ca.version ∧ c.unknownRecords w ≠ [] ∧
      err = .concurrentModification c.authority.id ca.version c.authority.version
        (c.unknownRecords w) := by
  rw [stale]
  by_cases hgroup : c.group = .system
  · rw [if_pos hgroup]
    exact ⟨fun h => absurd h.symm (Option.some_ne_none err), fun h => absurd hgroup h.1⟩
  · rw [if_neg hgroup]
    cases hfound : w.store.get? c.authority.id with
    | none => simp
    | some ca =>
      dsimp only
      by_cases hold : ca.version ≤ c.authority.version
      · rw [if_pos hold]
        refine ⟨fun h => absurd h.symm (Option.some_ne_none err), ?_⟩
        rintro ⟨-, found, hget, hlt, -⟩
        obtain rfl := Option.some.inj hget
        exact absurd hold (Nat.not_le.mpr hlt)
      · rw [if_neg hold, conflict, ← unknownRecords]
        by_cases hnone : c.unknownRecords w = []
        · rw [hnone, if_pos (by rfl)]
          refine ⟨fun h => absurd h.symm (Option.some_ne_none err), ?_⟩
          rintro ⟨-, -, -, -, hsome, -⟩
          exact absurd rfl hsome
        · rw [if_neg (by simpa using hnone)]
          constructor
          · rintro ⟨⟩
            exact ⟨hgroup, ca, rfl, Nat.lt_of_not_le hold, hnone, rfl⟩
          · rintro ⟨-, found, hget, -, -, rfl⟩
            obtain rfl := Option.some.inj hget
            rfl

theorem refusal_isInterference {err : CommandError} (h : c.refusal = some err) :
    err.isInterference = false := by
  rw [refusal] at h
  split at h
  · split at h
    · exact Option.some.inj h ▸ rfl
    · split at h
      · exact Option.some.inj h ▸ rfl
      · exact absurd h (by simp)
  · exact absurd h (by simp)

/-- The errors of rulings are those of stale commands, and others that are up to nobody else. -/
theorem ruling_eq_error {err : CommandError} (h : c.ruling w = .error err) :
    c.stale w = some err ∨ c.stale w = none ∧ err.isInterference = false := by
  rw [ruling] at h
  cases hstale : c.stale w with
  | some wrong =>
    rw [hstale] at h
    obtain rfl := Except.error.inj h
    exact Or.inl rfl
  | none =>
    rw [hstale, Option.none_or] at h
    refine Or.inr ⟨rfl, ?_⟩
    cases hrefusal : c.refusal with
    | some wrong =>
      rw [hrefusal] at h
      obtain rfl := Except.error.inj h
      exact refusal_isInterference hrefusal
    | none =>
      rw [hrefusal] at h
      exact effect_isInterference h

/-- A command that is stale is told so. -/
theorem verdict_of_stale {err : CommandError} (h : c.stale w = some err) :
    c.verdict w = .error err := by
  obtain ⟨-, ca, -, -, -, rfl⟩ := stale_eq_some_iff.mp h
  rw [verdict, ruling, h]
  rfl

/-- **The errors of verdicts** are those of rulings. -/
theorem verdict_eq_error {err : CommandError} (h : c.verdict w = .error err) :
    c.stale w = some err ∨ c.stale w = none ∧ err.isInterference = false := by
  rw [verdict] at h
  cases hruling : c.ruling w with
  | ok change =>
    rw [hruling] at h
    exact absurd h (by simp [told])
  | error wrong =>
    rw [hruling] at h
    by_cases hno : wrong = .noEffect
    · subst hno
      exact absurd h (by simp [told])
    · rw [told_error hno] at h
      exact Except.error.inj h ▸ ruling_eq_error hruling

theorem stale_of_verdict {id : AggregateId} {current version : Nat} {records : List CommandRecord}
    (h : c.verdict w = .error (.concurrentModification id current version records)) :
    c.stale w = some (.concurrentModification id current version records) :=
  (verdict_eq_error h).resolve_right fun hnot => Bool.noConfusion hnot.2

/-- **No verdict is an error of the store**, after which the command would be tried again. -/
theorem verdict_isTransient {err : CommandError} (h : c.verdict w = .error err) :
    err.isTransient = false := by
  rcases verdict_eq_error h with hstale | ⟨-, hnot⟩
  · obtain ⟨-, ca, -, -, -, rfl⟩ := stale_eq_some_iff.mp hstale
    rfl
  · exact CommandError.isTransient_eq_false hnot

end Command

end RpkiAuthority
