import RpkiAuthority.Proofs.Concurrent.Serial
import RpkiAuthority.Proofs.Engine.Failure
import RpkiAuthority.Proofs.History.About

/-!
# Commands on different authorities

What is decided on a command depends on its authority, on the records about it, on whether others
hold a lock on it, and on the number that is drawn for a new one (`World.SameFor`,
`Command.decision_of_sameFor`). And what a command does, whether it is refused, has nothing to do,
fails or takes effect, it does to its own authority and to the records about it
(`Command.Decided.sameFor`).

So of two commands on different authorities none can tell whether the other was executed before it,
nor can anybody tell afterwards in which order they were executed, but from the numbers of records,
the times, and the numbers drawn for new authorities (`World.executed_in_either_order`).
-/

namespace RpkiAuthority

variable {X : Interface} {S : Type}

/-! ### Numbers drawn for authorities -/

/-- The authority without the number that was drawn for it. -/
def CertificateAuthority.unnumbered (ca : CertificateAuthority) : CertificateAuthority :=
  { ca with uuid := Uuid.ofNat 0 }

/-- The change without the number that was drawn. -/
def Change.unnumbered (change : Change) : Change :=
  { change with authority := change.authority.map CertificateAuthority.unnumbered }

/-- **Two rulings are the same but for numbers drawn.** -/
def SameButNumber (ruling ruling' : Except CommandError Change) : Prop :=
  ruling'.map Change.unnumbered = ruling.map Change.unnumbered

namespace SameButNumber

variable {ruling ruling' : Except CommandError Change}

/-- Errors are the same, and so are changes but for the number. -/
theorem cases (h : SameButNumber ruling ruling') :
    (∃ err, ruling = .error err ∧ ruling' = .error err) ∨
      ∃ change change', ruling = .ok change ∧ ruling' = .ok change' ∧
        change'.unnumbered = change.unnumbered := by
  cases ruling with
  | error err =>
    cases ruling' with
    | error err' => exact .inl ⟨err, rfl, h⟩
    | ok change' => exact absurd h (by simp [SameButNumber, Except.map])
  | ok change =>
    cases ruling' with
    | error err' => exact absurd h (by simp [SameButNumber, Except.map])
    | ok change' => exact .inr ⟨change, change', rfl, rfl, Except.ok.inj h⟩

end SameButNumber

/-- The version does not depend on the number. -/
theorem Change.version_unnumbered (found : Option CertificateAuthority) (change : Change) :
    change.unnumbered.version found = change.version found := by
  cases found with
  | none => rfl
  | some ca => rw [version, version, unnumbered, Option.isSome_map]

namespace Command

variable {c : Command}

/-- **The number that is drawn is all that differs** between what a command does with one number and
with another. -/
theorem effect_sameButNumber (c : Command) (uuid uuid' : Uuid)
    (found : Option CertificateAuthority) :
    SameButNumber (c.effect uuid found).outcome (c.effect uuid' found).outcome := by
  rw [SameButNumber]
  cases hd : c.details with
  | createCertificateAuthority name =>
    cases found with
    | none =>
      rw [effect, effect, hd]
      rfl
    | some ca => rw [effect, effect, hd]
  | _ => cases found <;> rw [effect, effect, hd]

/-- The sender of a command is not told the number. -/
theorem told_of_sameButNumber {ruling ruling' : Except CommandError Change}
    (h : SameButNumber ruling ruling') (c : Command) (found : Option CertificateAuthority) :
    c.told found ruling' = c.told found ruling := by
  obtain ⟨err, rfl, rfl⟩ | ⟨change, change', rfl, rfl, hsame⟩ := h.cases
  · rfl
  · rw [told, told, ← change'.version_unnumbered, hsame, change.version_unnumbered]

end Command

/-! ### What a command looks at -/

namespace World

/-- **Nothing is different for an authority**: it is the same, with the same records about it, and
the same locks are held. -/
structure SameFor (id : AggregateId) (w w' : World S) : Prop where
  get? : w'.store.get? id = w.store.get? id
  about : w'.audit.about id = w.audit.about id
  locks : w'.store.locks = w.store.locks

variable {id : AggregateId} {u v w w' : World S}

theorem SameFor.trans (h : SameFor id u w) (h' : SameFor id w w') : SameFor id u w' :=
  ⟨h'.get?.trans h.get?, h'.about.trans h.about, h'.locks.trans h.locks⟩

theorem SameFor.symm (h : SameFor id w w') : SameFor id w' w :=
  ⟨h.get?.symm, h.about.symm, h.locks.symm⟩

@[simp] theorem nextTx_amid (w around : World S) :
    (w.amid around).store.nextTx = w.store.nextTx := rfl

theorem sameFor_amid (id : AggregateId) (w around : World S) : SameFor id w (w.amid around) :=
  ⟨rfl, rfl, rfl⟩

/-- The same later records are found. -/
theorem SameFor.since (h : SameFor id w w') (version : Nat) :
    w'.audit.since ⟨id, version⟩ = w.audit.since ⟨id, version⟩ := by
  rw [AuditLog.since_eq, AuditLog.since_eq, AuditLog.current_eq, AuditLog.current_eq, h.about]

end World

namespace Command

open World

variable {c : Command} {w w' : World S}

theorem stale_of_sameFor (h : w.SameFor c.authority.id w') : c.stale w' = c.stale w := by
  rw [stale, stale, h.get?, h.since c.authority.version]

theorem waits_of_sameFor (h : w.SameFor c.authority.id w') : c.waits w' = c.waits w := by
  rw [waits, waits, stale_of_sameFor h, h.locks]

theorem abandoned_of_sameFor (h : w.SameFor c.authority.id w') :
    c.abandoned w' = c.abandoned w := by
  rw [abandoned, abandoned, h.get?, h.since c.authority.version]

theorem transactions_of_sameFor {settings : Settings} (h : w.SameFor c.authority.id w') :
    c.transactions settings w' = c.transactions settings w := by
  rw [transactions, transactions, waits_of_sameFor h]

/-- **What is decided on a command depends on what is different for its authority**, and on the
number drawn. -/
theorem decision_of_sameFor (h : w.SameFor c.authority.id w') :
    SameButNumber (c.decision w) (c.decision w') := by
  rw [decision, decision, waits_of_sameFor h, abandoned_of_sameFor h]
  split
  · rfl
  · rw [ruling, ruling, stale_of_sameFor h, h.get?]
    split
    · rfl
    · exact c.effect_sameButNumber _ _ _

end Command

/-! ### What a command leaves -/

/-- **Nobody can tell the difference for an authority**, but by the numbers of records, by times,
and by the number drawn for the authority. -/
structure World.AgreeOn (id : AggregateId) (w w' : World S) : Prop where
  get? : (w'.store.get? id).map CertificateAuthority.unnumbered =
    (w.store.get? id).map CertificateAuthority.unnumbered
  history : w'.audit.history id = w.audit.history id

namespace World

variable {id : AggregateId} {u v w w' : World S}

theorem AgreeOn.trans (h : AgreeOn id u w) (h' : AgreeOn id w w') : AgreeOn id u w' :=
  ⟨h'.get?.trans h.get?, h'.history.trans h.history⟩

theorem AgreeOn.symm (h : AgreeOn id w w') : AgreeOn id w' w := ⟨h.get?.symm, h.history.symm⟩

theorem SameFor.agreeOn (h : SameFor id w w') : AgreeOn id w w' :=
  ⟨by rw [h.get?], by rw [AuditLog.history, AuditLog.history, h.about]⟩

/-- Worlds that agree on all authorities have the same ones but for the numbers. -/
theorem mapValues_of_agreeOn (h : ∀ id, AgreeOn id w w') :
    w'.store.aggregates.mapValues CertificateAuthority.unnumbered =
      w.store.aggregates.mapValues CertificateAuthority.unnumbered := by
  refine OrdMap.ext_find? fun id => ?_
  rw [OrdMap.find?_mapValues, OrdMap.find?_mapValues]
  exact (h id).get?

end World

namespace Command

open World

variable {c : Command} {u u' w w' : World S} {ruling ruling' : Except CommandError Change}
  {begun begun' : Nat}

/-- **A command does nothing to other authorities**, nor to what was recorded about them. -/
theorem Decided.sameFor (h : c.Decided w ruling begun u) {id : AggregateId}
    (hid : id ≠ c.authority.id) : w.SameFor id u := by
  refine ⟨?_, ?_, h.locks⟩
  · rw [Store.get?, h.store]
    cases ruling with
    | ok change => exact c.find?_writes_of_ne _ change _ hid
    | error err => rfl
  · rw [h.audit]
    cases ruling with
    | ok change => exact c.about_recordsIn_of_ne _ change _ _ hid
    | error err => rfl

/-- **What a command does to its own authority** is the same where nothing is different for the
authority, but for the number drawn. -/
theorem Decided.agreeOn (h : c.Decided w ruling begun u) (h' : c.Decided w' ruling' begun' u')
    (hsame : w.SameFor c.authority.id w') (hruling : SameButNumber ruling ruling') :
    AgreeOn c.authority.id u u' := by
  obtain ⟨err, rfl, rfl⟩ | ⟨change, change', rfl, rfl, hchange⟩ := hruling.cases
  · refine AgreeOn.trans (w := w) ?_ (hsame.agreeOn.trans ?_)
    · exact ⟨by rw [h.sameCommitted.get?], by rw [h.audit]; rfl⟩
    · exact ⟨by rw [h'.sameCommitted.get?], by rw [h'.audit]; rfl⟩
  · obtain ⟨hauthority, hevents⟩ := Change.mk.inj hchange
    have hisNone : change'.authority.isNone = change.authority.isNone := by
      rw [← Option.isNone_map, hauthority, Option.isNone_map]
    have hversion : change'.version (w'.store.get? c.authority.id) =
        change.version (w.store.get? c.authority.id) := by
      rw [hsame.get?, ← change'.version_unnumbered, hchange, change.version_unnumbered]
    constructor
    · rw [Store.get?, Store.get?, h.store, h'.store]
      dsimp only [leaves]
      rw [find?_writes_self, find?_writes_self, hversion]
      have hput : ∀ version, CertificateAuthority.unnumbered ∘ Aggregate.withVersion version =
          Aggregate.withVersion version ∘ CertificateAuthority.unnumbered := fun _ => rfl
      rw [Option.map_map, Option.map_map, hput, ← Option.map_map, ← Option.map_map, hauthority]
    · rw [h.audit, h'.audit]
      dsimp only [leaves]
      rw [history_recordsIn, history_recordsIn, hversion, hisNone, hevents,
        hsame.agreeOn.history]

/-- Other authorities are the same before and after a command, amid whatever else. -/
theorem Decided.sameFor_amid {around : World S} (h : c.Decided (w.amid around) ruling begun u)
    {id : AggregateId} (hid : id ≠ c.authority.id) (before after : World S) :
    (w.amid before).SameFor id (u.amid after) :=
  ((World.sameFor_amid id w before).symm.trans (World.sameFor_amid id w around)).trans
    ((h.sameFor hid).trans (World.sameFor_amid id u after))

end Command

/-! ### Two commands -/

namespace World

variable {outside : Outside X S} {w : World S}

/-- **Two commands, one after the other**: a decision on each of them. -/
theorem executeEach_two (outside : Outside X S) (settings : Settings) (levels : Nat)
    (htidy : w.store.Tidy) (c c' : Command) (around around' : World S) :
    ∃ u v, executeEach outside (Engine.standard settings) (levels + 2)
        [(around, c), (around', c')] w =
          some ([c.told ((w.amid around).store.get? c.authority.id) (c.decision (w.amid around)),
            c'.told ((u.amid around').store.get? c'.authority.id)
              (c'.decision (u.amid around'))], v) ∧
      c.Decided (w.amid around) (c.decision (w.amid around))
        (c.transactions settings (w.amid around)) u ∧
      c'.Decided (u.amid around') (c'.decision (u.amid around'))
        (c'.transactions settings (u.amid around')) v := by
  obtain ⟨u, hu, hfirst⟩ := Engine.execute_decided outside settings levels c (w := w.amid around)
    htidy
  obtain ⟨v, hv, hsecond⟩ := Engine.execute_decided outside settings levels c'
    (w := u.amid around') (hfirst.tidy htidy)
  refine ⟨u, v, ?_, hfirst, hsecond⟩
  rw [executeEach, hu, Option.bind_some, executeEach, hv, Option.bind_some]
  rfl

/-- **Commands leave other authorities alone, and can be executed in either order.** In every
reachable world, whatever locks are held: a command, whether it is refused, has nothing to do, fails
or takes effect, changes no other authority and no record about one. And two commands on different
authorities, executed in either order and at whatever times, are told the same, and lead to the same
authorities but for the numbers drawn for new ones, to the same locks and the same number of
transactions, and to the same history of every authority but for the numbers and times of its
records. -/
theorem executed_in_either_order (hout : outside.Orderly) (hw : Reachable outside w)
    (settings : Settings) (levels : Nat) (c c' : Command) :
    (∃ r u, execute outside (Engine.standard settings) (levels + 2) c w = some (r, u) ∧
      u.store.locks = w.store.locks ∧
      ∀ id, id ≠ c.authority.id →
        u.store.get? id = w.store.get? id ∧ u.audit.about id = w.audit.about id) ∧
    (c.authority.id ≠ c'.authority.id → ∀ a₁ a₂ b₁ b₂ : World S, ∃ r r' v v',
      executeEach outside (Engine.standard settings) (levels + 2) [(a₁, c), (a₂, c')] w =
        some ([r, r'], v) ∧
      executeEach outside (Engine.standard settings) (levels + 2) [(b₁, c'), (b₂, c)] w =
        some ([r', r], v') ∧
      v'.store.aggregates.mapValues CertificateAuthority.unnumbered =
        v.store.aggregates.mapValues CertificateAuthority.unnumbered ∧
      v'.store.locks = v.store.locks ∧ v'.store.nextTx = v.store.nextTx ∧
      ∀ id, v'.audit.history id = v.audit.history id) := by
  have htidy : w.store.Tidy := hw.tidy hout
  constructor
  · obtain ⟨u, hu, hdecided⟩ := Engine.execute_decided outside settings levels c htidy
    exact ⟨_, u, hu, hdecided.locks, fun id hid =>
      ⟨(hdecided.sameFor hid).get?, (hdecided.sameFor hid).about⟩⟩
  · intro hne a₁ a₂ b₁ b₂
    obtain ⟨u, v, hrun, hu, hv⟩ := executeEach_two outside settings levels htidy c c' a₁ a₂
    obtain ⟨u', v', hrun', hu', hv'⟩ := executeEach_two outside settings levels htidy c' c b₁ b₂
    -- each command finds the same as it does in the other order
    have hc : (w.amid a₁).SameFor c.authority.id (u'.amid b₂) := hu'.sameFor_amid hne a₁ b₂
    have hc' : (w.amid b₁).SameFor c'.authority.id (u.amid a₂) := hu.sameFor_amid hne.symm b₁ a₂
    have hdecision := Command.decision_of_sameFor hc
    have hdecision' := Command.decision_of_sameFor hc'
    have hagree : ∀ id, v.AgreeOn id v' := by
      intro id
      by_cases hid : id = c.authority.id
      · rw [hid]
        exact ((sameFor_amid _ u a₂).trans (hv.sameFor hne)).agreeOn.symm.trans
          (hu.agreeOn hv' hc hdecision)
      · by_cases hid' : id = c'.authority.id
        · rw [hid']
          exact (hu'.agreeOn hv hc' hdecision').symm.trans
            ((sameFor_amid _ u' b₂).trans (hv'.sameFor hne.symm)).agreeOn
        · have hfirst : (w.amid a₁).SameFor id v :=
            (hu.sameFor_amid hid a₁ a₂).trans (hv.sameFor hid')
          have hsecond : (w.amid a₁).SameFor id v' :=
            (hu'.sameFor_amid hid' a₁ b₂).trans (hv'.sameFor hid)
          exact (hfirst.symm.trans hsecond).agreeOn
    refine ⟨_, _, v, v', hrun, ?_, mapValues_of_agreeOn hagree, ?_, ?_,
      fun id => (hagree id).history⟩
    · rw [hrun', hc.get?, Command.told_of_sameButNumber hdecision, hc'.get?,
        Command.told_of_sameButNumber hdecision']
    · exact (hv'.locks.trans hu'.locks).trans (hv.locks.trans hu.locks).symm
    · rw [hv'.nextTx, hv.nextTx, Command.transactions_of_sameFor hc,
        Command.transactions_of_sameFor hc', World.nextTx_amid, World.nextTx_amid, hu.nextTx,
        hu'.nextTx, World.nextTx_amid, World.nextTx_amid]
      exact Nat.add_right_comm _ _ _

/-- A command that changes one authority, and one that creates another one. -/
def subscribing : Command :=
  ⟨⟨1, 0⟩, .user "alice", .subscribeToRoaAlert "a@example.org" (OrdSet.ofMembers [.unknown]) .daily⟩

def creating : Command := ⟨⟨2, 0⟩, .system, .createCertificateAuthority "other"⟩

/-- In either order they are told the same; the number drawn for the new authority is another
one. -/
theorem executed_in_either_order_creating :
    ∃ v v', executeEach Script.answer (Engine.standard .standard) 2
        [(Engine.withAuthority, subscribing),
          ({ Engine.withAuthority with nextUuid := 1 }, creating)] Engine.withAuthority =
          some ([.ok ⟨true, ⟨1, 1⟩⟩, .ok ⟨true, ⟨2, 0⟩⟩], v) ∧
      executeEach Script.answer (Engine.standard .standard) 2
        [(Engine.withAuthority, creating), (Engine.withAuthority, subscribing)]
          Engine.withAuthority =
          some ([.ok ⟨true, ⟨2, 0⟩⟩, .ok ⟨true, ⟨1, 1⟩⟩], v') ∧
      (v.store.get? 2).map CertificateAuthority.uuid = some (Uuid.ofNat 1) ∧
      (v'.store.get? 2).map CertificateAuthority.uuid = some (Uuid.ofNat 0) ∧
      v'.store.aggregates.mapValues CertificateAuthority.unnumbered =
        v.store.aggregates.mapValues CertificateAuthority.unnumbered ∧
      ∀ id, v'.audit.history id = v.audit.history id := by
  have hcompute : (executeEach Script.answer (Engine.standard .standard) 2
      [(Engine.withAuthority, subscribing),
        ({ Engine.withAuthority with nextUuid := 1 }, creating)] Engine.withAuthority).map (fun p =>
          (p.1.map Except.toOption, (p.2.store.get? 2).map CertificateAuthority.uuid)) =
        some ([some ⟨true, ⟨1, 1⟩⟩, some ⟨true, ⟨2, 0⟩⟩], some (Uuid.ofNat 1)) := by
    decide +kernel
  have hcompute' : (executeEach Script.answer (Engine.standard .standard) 2
      [(Engine.withAuthority, creating), (Engine.withAuthority, subscribing)]
        Engine.withAuthority).map (fun p => (p.2.store.get? 2).map CertificateAuthority.uuid) =
        some (some (Uuid.ofNat 0)) := by
    decide +kernel
  obtain ⟨r, r', v, v', hrun, hrun', haggregates, -, -, hhistory⟩ :=
    (executed_in_either_order Outside.orderly_script Engine.reachable_withAuthority .standard 0
      subscribing creating).2 (by decide) Engine.withAuthority
        { Engine.withAuthority with nextUuid := 1 } Engine.withAuthority Engine.withAuthority
  rw [hrun, Option.map_some] at hcompute
  rw [hrun', Option.map_some] at hcompute'
  obtain ⟨htold, hnumber⟩ := Prod.mk.inj (Option.some.inj hcompute)
  obtain ⟨hr, hrest⟩ := List.cons.inj htold
  obtain ⟨hr', -⟩ := List.cons.inj hrest
  have hok : ∀ {r : Except CommandError CommandStatus} {status : CommandStatus},
      r.toOption = some status → r = .ok status := by
    intro r status h
    cases r with
    | error err => exact absurd h (by simp [Except.toOption])
    | ok told => exact congrArg Except.ok (Option.some.inj h)
  obtain rfl := hok hr
  obtain rfl := hok hr'
  exact ⟨v, v', hrun, hrun', hnumber, Option.some.inj hcompute', haggregates, hhistory⟩

end World

end RpkiAuthority
