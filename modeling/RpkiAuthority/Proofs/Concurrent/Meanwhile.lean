import RpkiAuthority.Proofs.Engine.Undisturbed
import RpkiAuthority.Proofs.Runs.Recorded

/-!
# What others do meanwhile

While a command is executed, others may take effect, any number of them between any two of its steps
(`World.Meanwhile`). To an authority that was looked at before, one of two things has happened then:
nothing, and then its records are the same too, or it has **passed**: it has a later version, or was
deleted (`World.Meanwhile.same_or_passed`). And what has passed does not come back
(`Passed.meanwhile`). The one way in which an authority could is that it is created again after its
deletion; that is why the commands that took effect are kept track of, and why it matters that none
of them creates what another one has deleted (`NotRecreated`).
-/

namespace RpkiAuthority

variable {S : Type}

/-! ### Deletions -/

/-- One of the commands deleted an authority. -/
def Deleted (id : AggregateId) (commands : List Command) : Prop :=
  ∃ c ∈ commands, c.type = .deleteCertificateAuthority ∧ c.authority.id = id

/-- No authority is created again after a deletion. -/
def NotRecreated (commands : List Command) : Prop :=
  commands.Pairwise fun earlier later =>
    earlier.type = .deleteCertificateAuthority → later.type = .createCertificateAuthority →
      earlier.authority.id ≠ later.authority.id

instance (commands : List Command) : Decidable (NotRecreated commands) :=
  inferInstanceAs (Decidable (commands.Pairwise _))

section Deletions

variable {id : AggregateId} {commands : List Command} {c : Command}

theorem Deleted.append (h : Deleted id commands) (more : List Command) :
    Deleted id (commands ++ more) := by
  obtain ⟨c, hc, hdeleted⟩ := h
  exact ⟨c, List.mem_append_left more hc, hdeleted⟩

theorem deleted_concat :
    Deleted id (commands ++ [c]) ↔
      Deleted id commands ∨ c.type = .deleteCertificateAuthority ∧ c.authority.id = id := by
  simp only [Deleted, List.mem_append, List.mem_singleton, or_and_right, exists_or, exists_eq_left]

theorem NotRecreated.of_append {more : List Command} (h : NotRecreated (commands ++ more)) :
    NotRecreated commands :=
  (List.pairwise_append.mp h).1

/-- What was deleted is not created afterwards. -/
theorem NotRecreated.type_ne_create (h : NotRecreated (commands ++ [c]))
    (hdeleted : Deleted c.authority.id commands) : c.type ≠ .createCertificateAuthority := by
  obtain ⟨earlier, hin, htype, hid⟩ := hdeleted
  intro hcreate
  exact (List.pairwise_append.mp h).2.2 earlier hin c List.mem_cons_self htype hcreate hid

end Deletions

/-! ### One command that takes effect -/

namespace World

/-- Nothing happens to an authority, nor to its records. -/
structure SameAuthority (id : AggregateId) (w w' : World S) : Prop where
  get? : w'.store.get? id = w.store.get? id
  current : w'.audit.current id = w.audit.current id

theorem SameAuthority.trans {id : AggregateId} {u w w' : World S} (h : SameAuthority id u w)
    (h' : SameAuthority id w w') : SameAuthority id u w' :=
  ⟨h'.get?.trans h.get?, h'.current.trans h.current⟩

theorem SameAuthority.of_committed {w w' : World S} (h : w'.committed = w.committed)
    (id : AggregateId) : SameAuthority id w w' := by
  obtain ⟨haggregates, haudit⟩ := Prod.mk.inj h
  exact ⟨by rw [Store.get?, haggregates, Store.get?], by rw [haudit]⟩

end World

/-- **An authority has passed** from what was found: it was deleted, or has a later version. -/
def Passed (id : AggregateId) (found : Option CertificateAuthority) (w : World S)
    (commands : List Command) : Prop :=
  Deleted id commands ∨
    ∃ ca, w.store.get? id = some ca ∧ ∀ old ∈ found, old.version < ca.version

section Effect

open World

variable {c : Command} {status : CommandStatus} {w w' : World S} {id : AggregateId}
  {found : Option CertificateAuthority} {commands : List Command}

theorem Passed.of_get? (h : Passed id found w commands)
    (hget : w'.store.get? id = w.store.get? id) : Passed id found w' commands := by
  rwa [Passed, hget]

/-- Only an authority that is there can be deleted. -/
theorem Command.type_of_authority_eq_none {uuid : Uuid} {change : Change}
    (heffect : (c.effect uuid found).outcome = .ok change) (hnone : change.authority = none) :
    c.type = .deleteCertificateAuthority := by
  cases found with
  | none =>
    obtain ⟨name, -, rfl⟩ := Command.effect_none_eq_ok heffect
    exact absurd hnone (Option.some_ne_none _)
  | some ca => exact (Command.effect_some_eq_ok heffect).authority_eq_none_iff.mp hnone

/-- A command does nothing to other authorities. -/
theorem Command.Outcome.sameAuthority {r : Except CommandError CommandStatus}
    (h : c.Outcome w r w') (hid : id ≠ c.authority.id) : SameAuthority id w w' := by
  cases h with
  | failed same | idle _ same => exact .of_committed (Prod.ext same.aggregates same.audit) id
  | effective _ _ _ aggregates audit =>
    refine ⟨?_, by rw [audit, current_recordsIn_of_ne hid]⟩
    rw [Store.get?, aggregates, Command.writes]
    split
    · exact OrdMap.find?_insert_of_ne _ hid _
    · exact OrdMap.find?_erase_of_ne _ hid

/-- **A command that takes effect** makes its authority pass. -/
theorem Command.Outcome.passed (h : c.Outcome w (.ok status) w')
    (heffect : status.hasEffect = true) :
    Passed c.authority.id (w.store.get? c.authority.id) w' (commands ++ [c]) := by
  cases h with
  | idle => exact Bool.noConfusion heffect
  | @effective _ change _ _ _ effect aggregates =>
    cases hauthority : change.authority with
    | none =>
      have htype := Command.type_of_authority_eq_none effect hauthority
      exact Or.inl (deleted_concat.mpr (Or.inr ⟨htype, rfl⟩))
    | some changed =>
      refine Or.inr ⟨Aggregate.withVersion (change.version (w.store.get? c.authority.id)) changed,
        ?_, fun old hold => ?_⟩
      · rw [Store.get?, aggregates, Command.writes, hauthority]
        exact OrdMap.find?_insert_self _ _ _
      · rw [Option.mem_def.mp hold]
        show old.version < Change.version (some old) change
        rw [Change.version, hauthority]
        exact Nat.lt_succ_self old.version

/-- What has passed does not come back when a command takes effect. -/
theorem Passed.of_outcome (hpassed : Passed id found w commands) (h : c.Outcome w (.ok status) w')
    (heffect : status.hasEffect = true) : Passed id found w' (commands ++ [c]) := by
  rcases hpassed with hdeleted | ⟨ca, hget, hlater⟩
  · exact Or.inl (hdeleted.append [c])
  · by_cases hid : id = c.authority.id
    · subst hid
      rcases h.passed heffect with hdeleted | ⟨next, hnext, hgreater⟩
      · exact Or.inl hdeleted
      · refine Or.inr ⟨next, hnext, fun old hold => ?_⟩
        exact Nat.lt_trans (hlater old hold) (hgreater ca hget)
    · exact Or.inr ⟨ca, (h.sameAuthority hid).get?.trans hget, hlater⟩

end Effect

/-! ### Any number of them -/

namespace World

/-- **What can happen meanwhile**: others take effect one after the other, and otherwise nothing
happens to what is committed. The commands that have taken effect are kept track of. -/
inductive Meanwhile (w : World S) (commands : List Command) : World S → List Command → Prop
  | idle {w' : World S} (same : w'.committed = w.committed) : Meanwhile w commands w' commands
  | effect {u v w' : World S} {later : List Command} {c : Command} {status : CommandStatus}
      (before : Meanwhile w commands u later) (ends : c.Outcome u (.ok status) v)
      (effective : status.hasEffect = true) (same : w'.committed = v.committed) :
      Meanwhile w commands w' (later ++ [c])

namespace Meanwhile

variable {u v w : World S} {k l commands : List Command} {id : AggregateId}

theorem refl (w : World S) (commands : List Command) : Meanwhile w commands w commands := .idle rfl

theorem then_same (h : Meanwhile u k v l) (hsame : w.committed = v.committed) :
    Meanwhile u k w l := by
  cases h with
  | idle same => exact .idle (hsame.trans same)
  | effect before ends effective same => exact .effect before ends effective (hsame.trans same)

theorem trans (h : Meanwhile u k v l) (h' : Meanwhile v l w commands) :
    Meanwhile u k w commands := by
  induction h' with
  | idle same => exact h.then_same same
  | effect _ ends effective same ih => exact .effect ih ends effective same

end Meanwhile

end World

/-- **What has passed does not come back.** -/
theorem Passed.meanwhile {id : AggregateId} {found : Option CertificateAuthority} {w w' : World S}
    {commands later : List Command} (h : Passed id found w commands)
    (hmeanwhile : w.Meanwhile commands w' later) : Passed id found w' later := by
  induction hmeanwhile with
  | idle same => exact h.of_get? (World.SameAuthority.of_committed same id).get?
  | effect _ ends effective same ih =>
    exact (ih.of_outcome ends effective).of_get? (World.SameAuthority.of_committed same id).get?

/-- **Nothing happens to an authority meanwhile, or it passes.** -/
theorem World.Meanwhile.same_or_passed {w w' : World S} {commands later : List Command}
    (h : w.Meanwhile commands w' later) (id : AggregateId) :
    w.SameAuthority id w' ∨ Passed id (w.store.get? id) w' later := by
  induction h with
  | idle same => exact Or.inl (.of_committed same id)
  | @effect u v w' later c status _ ends effective same ih =>
    have hsame : v.SameAuthority id w' := .of_committed same id
    rcases ih with hstill | hpassed
    · by_cases hid : id = c.authority.id
      · subst hid
        have hpassed : Passed _ (u.store.get? _) v (later ++ [c]) := ends.passed effective
        exact Or.inr (hstill.get? ▸ hpassed.of_get? hsame.get?)
      · exact Or.inl ((hstill.trans (ends.sameAuthority hid)).trans hsame)
    · exact Or.inr ((hpassed.of_outcome ends effective).of_get? hsame.get?)

end RpkiAuthority
