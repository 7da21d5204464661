import RpkiAuthority.Proofs.Engine.Verdict

/-!
# Where transient errors come from

A command is attempted again after a transient error. With the handlers and listeners of this
library no such error is made up on the way: an attempt that ends with one was refused by the store
in one of its steps, with just this error (`Engine.fromStore_of_attempt`).

This is about attempts taken by themselves, with steps that are answered in whatever way
(`Process.Ends`), and so it holds for every attempt among any number of others.
-/

namespace RpkiAuthority

variable {X : Interface} {α β : Type}

/-- A step that was taken, with the answer to it. -/
structure TakenStep (X : Interface) where
  query : SharedQuery X
  reply : (sharedInterface X).Reply query

namespace Process

/-- **A process ends** with a value when its steps are answered in this way. -/
inductive Ends {α : Type} : Process X α → List (TakenStep X) → α → Prop
  | done (a : α) : Ends (.done a) [] a
  | ask {q : SharedQuery X} {next : (sharedInterface X).Reply q → Process X α}
      {r : (sharedInterface X).Reply q} {steps : List (TakenStep X)} {a : α}
      (rest : Ends (next r) steps a) : Ends (.ask q next) (⟨q, r⟩ :: steps) a

/-- What is done in sequence ends in sequence. -/
theorem Ends.of_bind {p : Process X α} {f : α → Process X β} {steps : List (TakenStep X)} {b : β}
    (h : Ends (p >>= f) steps b) :
    ∃ earlier later a, steps = earlier ++ later ∧ Ends p earlier a ∧ Ends (f a) later b := by
  induction p generalizing steps with
  | done a => exact ⟨[], steps, a, rfl, .done a, h⟩
  | ask q next ih =>
    cases h with
    | ask rest =>
      obtain ⟨earlier, later, a, rfl, hp, hf⟩ := ih _ rest
      exact ⟨_ :: earlier, later, a, rfl, .ask hp, hf⟩

theorem Ends.of_pure {a b : α} {steps : List (TakenStep X)}
    (h : Ends (pure a : Process X α) steps b) : b = a := by
  cases h
  rfl

theorem ends_step_bind {q : SharedQuery X} {f : (sharedInterface X).Reply q → Process X α}
    {steps : List (TakenStep X)} {a : α} (h : Ends (step q >>= f) steps a) :
    ∃ r later, steps = ⟨q, r⟩ :: later ∧ Ends (f r) later a := by
  cases h with
  | ask rest => exact ⟨_, _, rfl, rest⟩

end Process

/-- What the store has refused a step with. -/
def TakenStep.failure? : TakenStep X → Option StorageError
  | ⟨.acquire _ _ _, .error e⟩ | ⟨.commit _ _ _, .error e⟩ => some e
  | _ => none

/-- **An error comes from the store**: it is what one of the steps was refused with. -/
def CommandError.FromStore (steps : List (TakenStep X)) (err : CommandError) : Prop :=
  ∃ e, err = .storage e ∧ ∃ a ∈ steps, a.failure? = some e

namespace CommandError

variable {steps earlier later : List (TakenStep X)} {err : CommandError}

theorem FromStore.append_left (h : err.FromStore later) : err.FromStore (earlier ++ later) := by
  obtain ⟨e, he, a, ha, hfailure⟩ := h
  exact ⟨e, he, a, List.mem_append_right earlier ha, hfailure⟩

theorem FromStore.cons {a : TakenStep X} (h : err.FromStore later) :
    err.FromStore (a :: later) :=
  show err.FromStore ([a] ++ later) from h.append_left

theorem isTransient_of_not_interference (h : err.isInterference = false)
    (htransient : err.isTransient = true) : False :=
  absurd htransient (by rw [isTransient_eq_false h]; exact Bool.false_ne_true)

end CommandError

/-! ### Parts of a course -/

section Course

open Process

variable {c : Command} {tx : Transaction CertificateAuthority}
  {steps : List (TakenStep X)} {err : CommandError}

theorem ends_giveBack {n : TxId} {given : CommandError} {r : Except CommandError CommandStatus}
    (h : Ends (giveBack n given : Process X _) steps r) : r = .error given := by
  obtain ⟨-, later, rfl, hrest⟩ := ends_step_bind h
  exact hrest.of_pure

/-- An error at the end of a transaction is one of the commit. -/
theorem fromStore_of_conclude {deletions : List AggregateId} {records : List PendingRecord}
    {status : CommandStatus} (h : Ends (conclude tx deletions records status : Process X _) steps
      (.error err)) : err.FromStore steps := by
  obtain ⟨committed, later, rfl, hrest⟩ := ends_step_bind h
  obtain ⟨-, later, rfl, hend⟩ := ends_step_bind hrest
  cases committed with
  | ok _ => exact absurd hend.of_pure (by simp)
  | error e =>
    obtain rfl := Except.error.inj hend.of_pure
    exact ⟨e, rfl, _, List.mem_cons_self, rfl⟩

theorem fromStore_of_settle {uuid : Uuid} {found : Option CertificateAuthority}
    (h : Ends (c.settle tx found (c.effect uuid found).outcome : Process X _) steps (.error err))
    (htransient : err.isTransient = true) : err.FromStore steps := by
  cases houtcome : (c.effect uuid found).outcome with
  | error given =>
    rw [houtcome] at h
    by_cases hgiven : given = .noEffect
    · subst hgiven
      obtain ⟨_, _, _, rfl, -, hend⟩ := h.of_bind
      exact (fromStore_of_conclude hend).append_left
    · have hsettle : c.settle (X := X) tx found (.error given) = giveBack tx.id given := by
        cases given <;> first | rfl | exact absurd rfl hgiven
      rw [hsettle] at h
      obtain rfl := Except.error.inj (ends_giveBack h)
      exact (CommandError.isTransient_of_not_interference (c.effect_isInterference houtcome)
        htransient).elim
  | ok change =>
    rw [houtcome] at h
    obtain ⟨_, _, _, rfl, -, hend⟩ := h.of_bind
    exact (fromStore_of_conclude hend).append_left

theorem fromStore_of_critical {seen : Option (Option CertificateAuthority)}
    (h : Ends (c.critical tx seen : Process X _) steps (.error err))
    (htransient : err.isTransient = true) : err.FromStore steps := by
  obtain ⟨granted, later, rfl, hrest⟩ := ends_step_bind h
  cases granted with
  | error e =>
    obtain rfl := Except.error.inj (ends_giveBack hrest)
    exact ⟨e, rfl, _, List.mem_cons_self, rfl⟩
  | ok _ =>
    obtain ⟨_, _, uuid, rfl, -, hrest⟩ := hrest.of_bind
    obtain ⟨_, _, found, rfl, -, hrest⟩ := hrest.of_bind
    obtain ⟨_, _, _, rfl, -, hrest⟩ := hrest.of_bind
    exact (fromStore_of_settle hrest htransient).append_left.append_left.append_left.cons

/-- What is wrong with the version of a command is nothing transient. -/
theorem admission_isTransient {wrong : CommandError} {seen : Option (Option CertificateAuthority)}
    (h : Ends (c.admission : Process X _) steps (some wrong, seen)) :
    wrong.isTransient = false := by
  rw [Command.admission] at h
  split at h
  · exact absurd (Prod.mk.inj h.of_pure).1 (by simp)
  · obtain ⟨found, _, rfl, hrest⟩ := ends_step_bind h
    obtain ⟨_, _, stale, rfl, hstale, hend⟩ := hrest.of_bind
    obtain rfl := (Prod.mk.inj hend.of_pure).1
    cases found with
    | none => exact absurd hstale.of_pure (by simp)
    | some ca =>
      rw [Command.staleness] at hstale
      split at hstale
      · exact absurd hstale.of_pure (by simp)
      · obtain ⟨records, _, rfl, hconflict⟩ := ends_step_bind hstale
        have hwrong := hconflict.of_pure
        unfold Command.conflict at hwrong
        dsimp only at hwrong
        split at hwrong
        · exact absurd hwrong (by simp)
        · obtain rfl := Option.some.inj hwrong
          rfl

theorem fromStore_of_course (h : Ends (c.course tx : Process X _) steps (.error err))
    (htransient : err.isTransient = true) : err.FromStore steps := by
  obtain ⟨_, _, ⟨wrong, seen⟩, rfl, hadmission, hrest⟩ := h.of_bind
  dsimp only at hrest
  split at hrest
  · next given hgiven =>
    obtain rfl := Except.error.inj (ends_giveBack hrest)
    rcases Option.or_eq_some_iff.mp hgiven with rfl | ⟨-, hrefusal⟩
    · exact absurd htransient (by rw [admission_isTransient hadmission]; exact Bool.false_ne_true)
    · exact (CommandError.isTransient_of_not_interference
        (Command.refusal_isInterference hrefusal) htransient).elim
  · exact (fromStore_of_critical hrest htransient).append_left

/-- **Transient errors come from the store**, with the handlers and listeners of this library, where
transactions have looked at nothing when they start. -/
theorem Engine.fromStore_of_attempt {settings : Settings} {levels : Nat}
    (h : Ends ((standard (X := X) settings).attempt (levels + 2) c) steps (.error err))
    (hnew : ∀ tx : Transaction CertificateAuthority, ⟨.start, tx⟩ ∈ steps →
      tx.entries = OrdMap.empty)
    (htransient : err.isTransient = true) : err.FromStore steps := by
  rw [attempt_eq] at h
  obtain ⟨tx, later, rfl, hrest⟩ := ends_step_bind h
  have hempty : tx.entries = OrdMap.empty := hnew tx List.mem_cons_self
  have hcourse := attempt_standard (X := X) settings levels c tx (by rw [hempty]; rfl)
  rw [hcourse] at hrest
  exact (fromStore_of_course hrest htransient).cons

end Course

end RpkiAuthority
