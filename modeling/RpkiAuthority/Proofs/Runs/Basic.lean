import RpkiAuthority.Proofs.Engine.Executed

/-!
# Runs of commands

A run executes commands one after the other, each alone and each to its end. Its history lists
them with what became of them. With the handlers and listeners of this library every run comes to
its end, and every command in it to one of its three ends (`World.executeAll_ran`); so what these
ends keep is kept by runs (`World.Ran.preserves`).
-/

namespace RpkiAuthority

variable {X : Interface} {S : Type}

/-- The commands of a run with what became of them, the first one first. -/
abbrev RunHistory := List (Command × Except CommandError CommandStatus)

namespace World

/-- Executes commands one after the other. -/
def executeAll (outside : Outside X S) (e : Engine X) (levels : Nat) :
    List Command → World S → Option (List (Except CommandError CommandStatus) × World S)
  | [], w => some ([], w)
  | c :: rest, w =>
    (execute outside e levels c w).bind fun p =>
      (executeAll outside e levels rest p.2).map fun q => (p.1 :: q.1, q.2)

/-- Every command of a history came to one of its ends, in the world that the one before left. -/
inductive Ran : World S → RunHistory → World S → Prop
  | nil (w : World S) : Ran w [] w
  | cons {w u w' : World S} {c : Command} {r : Except CommandError CommandStatus}
      {history : RunHistory} (first : c.Outcome w r u) (rest : Ran u history w') :
      Ran w ((c, r) :: history) w'

/-- **Runs keep what each end keeps**, together with the history so far. -/
theorem Ran.preserves {P : RunHistory → World S → Prop}
    (hstep : ∀ ⦃history w c r w'⦄, P history w → Command.Outcome c w r w' →
      P (history ++ [(c, r)]) w')
    {w w' : World S} {history : RunHistory} (h : Ran w history w') (before : RunHistory)
    (hw : P before w) : P (before ++ history) w' := by
  -- the history grows at its end, where the next command is added
  induction h generalizing before with
  | nil => rwa [List.append_nil]
  | cons first _ ih =>
    rw [List.append_cons]
    exact ih _ (hstep hw first)

/-- **Every run comes to its end**, with an end of each of its commands. -/
theorem executeAll_ran (outside : Outside X S) (settings : Settings) (levels : Nat)
    (commands : List Command) (w : World S) :
    ∃ results w', executeAll outside (Engine.standard settings) (levels + 2) commands w =
        some (results, w') ∧
      results.length = commands.length ∧ Ran w (commands.zip results) w' := by
  induction commands generalizing w with
  | nil => exact ⟨[], w, rfl, rfl, .nil w⟩
  | cons c rest ih =>
    obtain ⟨r, u, hu, ho⟩ := Engine.execute_outcome outside settings levels c w
    obtain ⟨results, w', hrest, hlength, hran⟩ := ih u
    refine ⟨r :: results, w', ?_, ?_, .cons ho hran⟩
    · rw [executeAll, hu, Option.bind_some, hrest]
      rfl
    · rw [List.length_cons, List.length_cons, hlength]

end World

end RpkiAuthority
