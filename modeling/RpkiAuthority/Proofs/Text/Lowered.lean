import Mathlib.Data.List.DropRight
import Mathlib.Data.List.Induction
import RpkiAuthority.Proofs.Text.Pieces
import RpkiAuthority.Text.Lowercase

/-!
# Lower case is final

A text in lower case is left as it is: no character that stands for another in lower case has a
lower case of its own (`Text.lowered_lowered`). For single letters this is a fact about the table of
capitals, and it is checked run by run: the small letters of one run lie outside of every other run,
or interleave with its capitals (`Text.avoids_capitalRuns`). The two characters whose lower case is
not in the table, the sigma and the dotted I, go to small letters as well.

Lower case makes no blanks, so a text that was trimmed before needs no trimming afterwards
(`Text.Unpadded.lowered`).
-/

namespace RpkiAuthority.Text

variable {c d : Char} {l : List Char}

/-! ### The table of capitals -/

/-- Whether a code point is in a run of capitals. -/
def inRun (n : Nat) (run : Nat × Nat × Nat × Nat) : Bool :=
  run.1 ≤ n && n ≤ run.2.1 && (n - run.1) % run.2.2.1 == 0

/-- Whether the small letters of a run lie outside of a range. -/
def clearOf (run : Nat × Nat × Nat × Nat) (range : Nat × Nat) : Bool :=
  (run.2.2.2 + (run.2.1 - run.1)).blt range.1 || range.2.blt run.2.2.2

/-- Whether the small letters of a run are no capitals of another one: they lie outside of it, or
both go in steps of two and never meet. -/
def avoids (run other : Nat × Nat × Nat × Nat) : Bool :=
  clearOf run (other.1, other.2.1) ||
    ((run.2.2.1 == 2 || run.1 == run.2.1) && other.2.2.1 == 2 &&
      (run.2.2.2 + other.1) % 2 == 1)

section Runs

variable {run other : Nat × Nat × Nat × Nat} {range : Nat × Nat} {n : Nat}

theorem not_mem_of_clearOf (h : clearOf run range = true) (hn : inRun n run = true) :
    ¬(range.1 ≤ run.2.2.2 + (n - run.1) ∧ run.2.2.2 + (n - run.1) ≤ range.2) := by
  simp only [clearOf, inRun, Bool.or_eq_true, Bool.and_eq_true, Nat.blt_eq, decide_eq_true_eq]
    at h hn
  omega

theorem not_inRun_of_avoids (h : avoids run other = true) (hn : inRun n run = true) :
    inRun (run.2.2.2 + (n - run.1)) other = false := by
  obtain ⟨first, last, step, target⟩ := run
  obtain ⟨first', last', step', target'⟩ := other
  rw [avoids, Bool.or_eq_true] at h
  rw [Bool.eq_false_iff]
  intro hsmall
  rcases h with hclear | htwos
  · rw [inRun, Bool.and_eq_true, Bool.and_eq_true, decide_eq_true_eq, decide_eq_true_eq] at hsmall
    exact not_mem_of_clearOf hclear hn hsmall.1
  · simp only [inRun, Bool.or_eq_true, Bool.and_eq_true, decide_eq_true_eq, beq_iff_eq]
      at htwos hn hsmall
    -- a run of one capital goes in steps of two as well
    obtain ⟨⟨rfl | rfl, rfl⟩, hodd⟩ := htwos <;> omega

end Runs

/-- **No small letter is a capital.** The dotted I counts as a run of its own here. -/
theorem avoids_capitalRuns : ∀ run ∈ capitalRuns,
    ∀ other ∈ (0x130, 0x130, 1, 0x69) :: capitalRuns, avoids run other = true := by
  have hall : (capitalRuns.all fun run =>
      ((0x130, 0x130, 1, 0x69) :: capitalRuns).all (avoids run)) = true := by
    decide +kernel
  exact fun run hrun => List.all_eq_true.mp (List.all_eq_true.mp hall run hrun)

/-- Small letters are characters, and no blanks. -/
theorem clearOf_capitalRuns : ∀ run ∈ capitalRuns,
    (run.2.2.2 + (run.2.1 - run.1) < 0x110000 ∧ clearOf run (0xD800, 0xDFFF) = true) ∧
      ∀ range ∈ blankRanges, clearOf run range = true := by
  decide +kernel

/-! ### Small letters -/

/-- The small letter of a capital has the same place in its run as the capital. -/
theorem smallLetter_cases (c : Char) :
    (smallLetter c = c ∧ ∀ run ∈ capitalRuns, inRun c.toNat run = false) ∨
      ∃ run ∈ capitalRuns, inRun c.toNat run = true ∧
        (smallLetter c).toNat = run.2.2.2 + (c.toNat - run.1) := by
  rw [smallLetter]
  split
  · next first last step target hfind =>
    have hmem := List.mem_of_find?_eq_some hfind
    have hin : inRun c.toNat (first, last, step, target) = true := List.find?_some hfind
    obtain ⟨⟨hmax, hsurrogates⟩, -⟩ := clearOf_capitalRuns _ hmem
    have hgap := not_mem_of_clearOf hsurrogates hin
    have hvalid : (target + (c.toNat - first)).isValidChar := by
      simp only [inRun, Bool.and_eq_true, decide_eq_true_eq] at hin
      simp only at hmax hgap
      rw [Nat.isValidChar]
      omega
    exact Or.inr ⟨_, hmem, hin, by rw [Char.ofNat, dif_pos hvalid]; rfl⟩
  · next hfind =>
    exact Or.inl ⟨rfl, fun run hrun => Bool.eq_false_iff.mpr (List.find?_eq_none.mp hfind run hrun)⟩

theorem smallLetter_eq_self (h : ∀ run ∈ capitalRuns, inRun c.toNat run = false) :
    smallLetter c = c := by
  rcases smallLetter_cases c with ⟨hsame, -⟩ | ⟨run, hrun, hin, -⟩
  · exact hsame
  · exact absurd hin (Bool.eq_false_iff.mp (h run hrun))

/-- A character that is its own lower case, wherever it stands. -/
def IsSmall (c : Char) : Prop := c ≠ 'Σ' ∧ c ≠ 'İ' ∧ smallLetter c = c

instance (c : Char) : Decidable (IsSmall c) := inferInstanceAs (Decidable (_ ∧ _ ∧ _))

/-- **The small letter of a character is small**, except for the dotted I, which has two. -/
theorem isSmall_smallLetter (hi : c ≠ 'İ') (hs : c ≠ 'Σ') : IsSmall (smallLetter c) := by
  rcases smallLetter_cases c with ⟨hsame, -⟩ | ⟨run, hrun, hin, hsmall⟩
  · rw [hsame]
    exact ⟨hs, hi, hsame⟩
  · have hout : ∀ other ∈ (0x130, 0x130, 1, 0x69) :: capitalRuns,
        inRun (smallLetter c).toNat other = false := fun other hother =>
      hsmall ▸ not_inRun_of_avoids (avoids_capitalRuns run hrun other hother) hin
    obtain ⟨hdotted, hothers⟩ := List.forall_mem_cons.mp hout
    have hself := smallLetter_eq_self hothers
    refine ⟨fun heq => ?_, fun heq => ?_, hself⟩
    · rw [heq] at hself
      exact absurd hself (by decide +kernel)
    · rw [heq] at hdotted
      exact absurd hdotted (by decide)

theorem isBlank_smallLetter (h : isBlank c = false) : isBlank (smallLetter c) = false := by
  rcases smallLetter_cases c with ⟨hsame, -⟩ | ⟨run, hrun, hin, hsmall⟩
  · rw [hsame, h]
  · rw [isBlank, List.any_eq_false]
    intro range hrange hblank
    rw [Bool.and_eq_true, decide_eq_true_eq, decide_eq_true_eq, hsmall] at hblank
    exact not_mem_of_clearOf ((clearOf_capitalRuns run hrun).2 range hrange) hin hblank

/-! ### Characters in their places -/

section Between

variable {before after : List Char}

theorem lowerBetween_of_isSmall (h : IsSmall c) : lowerBetween before c after = [c] := by
  rw [lowerBetween, if_neg h.1, if_neg h.2.1, h.2.2]

/-- What stands for a character in lower case is small, and no blank unless the character is. -/
theorem isSmall_of_mem_lowerBetween (hd : d ∈ lowerBetween before c after) :
    IsSmall d ∧ (isBlank c = false → isBlank d = false) := by
  rw [lowerBetween] at hd
  split at hd
  · obtain rfl := List.mem_singleton.mp hd
    split <;> exact ⟨by decide +kernel, fun _ => by decide⟩
  · next hs =>
    split at hd
    · rw [List.mem_cons, List.mem_singleton] at hd
      rcases hd with rfl | rfl <;> exact ⟨by decide +kernel, fun _ => by decide⟩
    · next hi =>
      obtain rfl := List.mem_singleton.mp hd
      exact ⟨isSmall_smallLetter hi hs, isBlank_smallLetter⟩

theorem lowerBetween_ne_nil : lowerBetween before c after ≠ [] := by
  rw [lowerBetween]
  split
  · exact List.cons_ne_nil _ _
  · split <;> exact List.cons_ne_nil _ _

/-! ### Texts -/

theorem isSmall_of_mem_lowerAfter (hd : d ∈ lowerAfter before l) : IsSmall d := by
  induction l generalizing before with
  | nil => exact absurd hd List.not_mem_nil
  | cons c l ih =>
    rcases List.mem_append.mp hd with hd | hd
    · exact (isSmall_of_mem_lowerBetween hd).1
    · exact ih hd

/-- A text of small characters is left as it is. -/
theorem lowerAfter_eq_self (h : ∀ c ∈ l, IsSmall c) : lowerAfter before l = l := by
  induction l generalizing before with
  | nil => rfl
  | cons c l ih =>
    obtain ⟨hc, hl⟩ := List.forall_mem_cons.mp h
    rw [lowerAfter, lowerBetween_of_isSmall hc, ih hl, List.singleton_append]

/-- The lower case of a text ends with that of its last character. -/
theorem exists_lowerAfter_concat (before l : List Char) (c : Char) :
    ∃ x, lowerAfter before (l ++ [c]) = x ++ lowerBetween (l.reverse ++ before) c [] := by
  induction l generalizing before with
  | nil => exact ⟨[], by simp [lowerAfter]⟩
  | cons d l ih =>
    obtain ⟨x, hx⟩ := ih (d :: before)
    refine ⟨lowerBetween before d (l ++ [c]) ++ x, ?_⟩
    rw [List.cons_append, lowerAfter, hx, List.append_assoc, List.reverse_cons, List.append_assoc,
      List.singleton_append]

end Between

/-- **Lower case is final.** -/
theorem lowered_lowered (l : List Char) : lowered (lowered l) = lowered l :=
  lowerAfter_eq_self fun _ hd => isSmall_of_mem_lowerAfter hd

theorem lowered_eq_nil_iff : lowered l = [] ↔ l = [] := by
  cases l with
  | nil => exact ⟨fun _ => rfl, fun _ => rfl⟩
  | cons c l =>
    refine ⟨fun h => absurd (List.append_eq_nil_iff.mp h).1 lowerBetween_ne_nil, nofun⟩

/-! ### Ends of texts -/

/-- A text without blanks at its ends. -/
def Unpadded (l : List Char) : Prop :=
  (∀ c ∈ l.head?, isBlank c = false) ∧ ∀ c ∈ l.getLast?, isBlank c = false

theorem unpadded_trimmed (l : List Char) : Unpadded (trimmed l) := by
  constructor
  · intro c hc
    -- what is left in front is what the blanks in front were followed by
    obtain ⟨rest, hrest⟩ : trimmed l <+: l.dropWhile isBlank := List.rdropWhile_prefix isBlank _
    have hhead : (l.dropWhile isBlank).head? = some c := by
      rw [← hrest, List.head?_append, hc, Option.some_or]
    have hnot := List.head?_dropWhile_not isBlank l
    rwa [hhead] at hnot
  · intro c hc
    obtain ⟨hne, rfl⟩ := List.mem_getLast?_eq_getLast hc
    exact Bool.eq_false_iff.mpr (List.rdropWhile_last_not isBlank _ hne)

theorem Unpadded.trimmed_eq (h : Unpadded l) : trimmed l = l := by
  cases l with
  | nil => rfl
  | cons c l =>
    have hfront : (c :: l).dropWhile isBlank = c :: l :=
      List.dropWhile_cons_of_neg (by simp [h.1 c rfl])
    have hback : (c :: l).rdropWhile isBlank = c :: l :=
      List.rdropWhile_eq_self_iff.mpr fun hne => by
        simp [h.2 _ (List.getLast?_eq_some_getLast hne)]
    rw [trimmed, hfront]
    exact hback

/-- Lower case makes no blanks at the ends. -/
theorem Unpadded.lowered (h : Unpadded l) : Unpadded (lowered l) := by
  constructor
  · intro d hd
    cases l with
    | nil => exact absurd hd.symm (Option.some_ne_none d)
    | cons c l =>
      have hfirst : d ∈ (lowerBetween [] c l).head? := by
        rw [Text.lowered, lowerAfter, List.head?_append_of_ne_nil _ lowerBetween_ne_nil] at hd
        exact hd
      exact (isSmall_of_mem_lowerBetween (List.mem_of_head? hfirst)).2 (h.1 c rfl)
  · intro d hd
    cases l using List.reverseRecOn with
    | nil => exact absurd hd.symm (Option.some_ne_none d)
    | append_singleton l c =>
      obtain ⟨x, hx⟩ := exists_lowerAfter_concat [] l c
      have hlast : d ∈ (lowerBetween (l.reverse ++ []) c []).getLast? := by
        rw [Text.lowered, hx, List.getLast?_append_of_ne_nil _ lowerBetween_ne_nil] at hd
        exact hd
      exact (isSmall_of_mem_lowerBetween (List.mem_of_getLast? hlast)).2
        (h.2 c (List.getLast?_concat))

end RpkiAuthority.Text
