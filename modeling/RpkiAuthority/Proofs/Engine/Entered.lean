import Mathlib.Data.List.Induction
import RpkiAuthority.Engine.Propagation

/-!
# Which audiences are entered

A command enters and leaves audiences as its parts begin and end. But nothing forces the order:
audiences may be left from the middle, subscriptions kept or forgotten, and all may be reset at any
time (`PropagationStep`). What the steps lead to can be told from the steps alone
(`PropagationCourse`): an audience has the number of those entered before it, so those inside of
others have higher numbers, and to leave one is to leave all that do not have lower ones.

On the stack there are the audiences that were entered and that neither a reset nor the leaving of
an audience around them has ended since (`PropagationCourse.mem_stack_after`). Events should go to
the listeners subscribed to the last one of them and not cancelled since
(`PropagationCourse.recipients`).
-/

namespace RpkiAuthority

/-- What can happen to audiences and subscriptions. -/
inductive PropagationStep (L : Type) where
  | enter
  | leave (audience : Nat)
  | subscribe (listener : L)
  | cancel (subscription : Nat)
  | reset

/-- **What can be told from steps alone**: the audiences that were entered and not left, the last
one first, and how many audiences and subscriptions there were so far. An audience has the number of
those entered before it, and a subscription that of those made before it. -/
structure PropagationCourse where
  stack : List Nat
  audiences : Nat
  subscriptions : Nat

namespace PropagationStep

variable {L : Type}

/-- Whether a step cancels a subscription. -/
def cancels : PropagationStep L → Nat → Bool
  | cancel subscription, n => n == subscription
  | _, _ => false

/-- Whether a step is about an audience or a subscription that had its number before. -/
def isBefore (c : PropagationCourse) : PropagationStep L → Bool
  | leave audience => audience < c.audiences
  | cancel subscription => subscription < c.subscriptions
  | _ => false

end PropagationStep

/-! ### What is told from the steps -/

namespace PropagationCourse

variable {L : Type} {c : PropagationCourse} {step : PropagationStep L}
  {steps later : List (PropagationStep L)} {outer : List Nat} {audience i : Nat} {listener : L}

/-- Nothing has happened. -/
def start : PropagationCourse := ⟨[], 0, 0⟩

/-- One more audience, inside all others. -/
def enter (c : PropagationCourse) : PropagationCourse :=
  { c with stack := c.audiences :: c.stack, audiences := c.audiences + 1 }

/-- One more step. Of the audiences entered, those with lower numbers are around one that is left,
and stay. Who subscribes outside of any audience enters one. -/
def next (c : PropagationCourse) : PropagationStep L → PropagationCourse
  | .enter => c.enter
  | .leave audience =>
    if audience ∈ c.stack then { c with stack := c.stack.filter (· < audience) } else c
  | .subscribe _ =>
    { if c.stack = [] then c.enter else c with subscriptions := c.subscriptions + 1 }
  | .cancel _ => c
  | .reset => { c with stack := [] }

/-- Some more steps. -/
def after (c : PropagationCourse) (steps : List (PropagationStep L)) : PropagationCourse :=
  steps.foldl next c

theorem after_append (c : PropagationCourse) (steps later : List (PropagationStep L)) :
    c.after (steps ++ later) = (c.after steps).after later := List.foldl_append

theorem after_concat (c : PropagationCourse) (steps : List (PropagationStep L))
    (step : PropagationStep L) : c.after (steps ++ [step]) = (c.after steps).next step :=
  after_append c steps [step]

/-- A step enters a new audience. -/
def Enters (c : PropagationCourse) : PropagationStep L → Prop
  | .enter => True
  | .subscribe _ => c.stack = []
  | _ => False

/-- **Entered and not left**: a step entered the audience, and none of the later ones was a reset or
left the audience or one of those around it. -/
def EnteredSince (c : PropagationCourse) (steps : List (PropagationStep L)) (i : Nat) : Prop :=
  ∃ before step later, steps = before ++ step :: later ∧ (c.after before).Enters step ∧
    i = (c.after before).audiences ∧ .reset ∉ later ∧
    ∀ j ∈ i :: (c.after before).stack, .leave j ∉ later

/-- The subscription to an audience that a step makes. -/
def made (c : PropagationCourse) (audience : Nat) : PropagationStep L → List (Nat × L)
  | .subscribe listener =>
    if (c.next (.subscribe listener)).stack.head? = some audience then
      [(c.subscriptions, listener)]
    else []
  | _ => []

/-- The subscriptions to an audience that are made in the course of some steps and not cancelled in
it, in the order in which they are made. -/
def subscribed (audience : Nat) :
    PropagationCourse → List (PropagationStep L) → List (Nat × L)
  | _, [] => []
  | c, step :: later =>
    (c.made audience step).filter (fun l => !later.any fun step => step.cancels l.1) ++
      subscribed audience (c.next step) later

/-- **Whom events should go to** after some steps: the listeners subscribed to the innermost
audience in their course and not cancelled in it, the last one first. -/
def recipients (c : PropagationCourse) (steps : List (PropagationStep L)) : List L :=
  match (c.after steps).stack with
  | [] => []
  | audience :: _ => ((subscribed audience c steps).map Prod.snd).reverse

/-! ### Which audiences are entered -/

/-- Who enters an audience is inside it, and inside all others. -/
theorem stack_of_enters (h : c.Enters step) : (c.next step).stack = c.audiences :: c.stack := by
  cases step with
  | enter => rfl
  | subscribe listener =>
    have hnone : c.stack = [] := h
    rw [next, if_pos hnone]
    rfl
  | leave | cancel | reset => exact h.elim

/-- Who subscribes inside of an audience enters none. -/
theorem stack_subscribe (h : c.stack ≠ []) (listener : L) :
    (c.next (.subscribe listener)).stack = c.stack := by
  rw [next, if_neg h]

/-- A step that enters no audience leaves some or none. -/
theorem stack_of_not_enters (h : ¬c.Enters step) : (c.next step).stack.Sublist c.stack := by
  cases step with
  | enter => exact absurd trivial h
  | leave audience =>
    rw [next]
    split
    · exact List.filter_sublist
    · exact List.Sublist.refl _
  | subscribe listener => exact stack_subscribe h listener ▸ List.Sublist.refl _
  | cancel n => exact List.Sublist.refl _
  | reset => exact List.nil_sublist _

/-- Numbers are given one after the other. -/
theorem le_next (c : PropagationCourse) (step : PropagationStep L) :
    c.audiences ≤ (c.next step).audiences ∧ c.subscriptions ≤ (c.next step).subscriptions := by
  cases step with
  | enter => exact ⟨Nat.le_succ _, Nat.le_refl _⟩
  | leave audience =>
    rw [next]
    split <;> exact ⟨Nat.le_refl _, Nat.le_refl _⟩
  | subscribe listener =>
    rw [next]
    split
    · exact ⟨Nat.le_succ _, Nat.le_succ _⟩
    · exact ⟨Nat.le_refl _, Nat.le_succ _⟩
  | cancel | reset => exact ⟨Nat.le_refl _, Nat.le_refl _⟩

/-- A step enters an audience with the next number. -/
theorem lt_of_enters (h : c.Enters step) : c.audiences < (c.next step).audiences := by
  cases step with
  | enter => exact Nat.lt_succ_self _
  | subscribe listener =>
    have hnone : c.stack = [] := h
    rw [next, if_pos hnone]
    exact Nat.lt_succ_self _
  | leave | cancel | reset => exact h.elim

/-- **Audiences further inside have higher numbers**, and none has a number that was not given. -/
structure Descending (c : PropagationCourse) : Prop where
  pairwise : c.stack.Pairwise (· > ·)
  lt : ∀ i ∈ c.stack, i < c.audiences

theorem descending_of_nil (h : c.stack = []) : c.Descending := by
  constructor <;> simp [h]

theorem Descending.next (h : c.Descending) (step : PropagationStep L) :
    (c.next step).Descending := by
  by_cases henters : c.Enters step
  · have hstack := stack_of_enters henters
    have hlt := lt_of_enters henters
    refine ⟨hstack ▸ List.pairwise_cons.mpr ⟨h.lt, h.pairwise⟩, fun i hi => ?_⟩
    rcases List.mem_cons.mp (hstack ▸ hi) with rfl | hi
    · exact hlt
    · exact Nat.lt_trans (h.lt i hi) hlt
  · have hsub := stack_of_not_enters henters
    exact ⟨h.pairwise.sublist hsub, fun i hi =>
      Nat.lt_of_lt_of_le (h.lt i (hsub.subset hi)) (le_next c step).1⟩

theorem Descending.after (h : c.Descending) (steps : List (PropagationStep L)) :
    (c.after steps).Descending := by
  induction steps generalizing c with
  | nil => exact h
  | cons step rest ih => exact ih (h.next step)

/-- Those inside an audience have higher numbers, and those around it have lower ones. -/
theorem filter_lt_of_pairwise {inner : List Nat}
    (h : (inner ++ audience :: outer).Pairwise (· > ·)) :
    (inner ++ audience :: outer).filter (· < audience) = outer := by
  obtain ⟨-, hright, hinner⟩ := List.pairwise_append.mp h
  have houter := (List.pairwise_cons.mp hright).1
  rw [List.filter_append, List.filter_eq_nil_iff.mpr, List.nil_append,
    List.filter_cons_of_neg (by simp), List.filter_eq_self.mpr]
  · exact fun i hi => decide_eq_true (houter i hi)
  · intro i hi
    have hgreater := hinner i hi audience List.mem_cons_self
    exact fun hless => Nat.lt_asymm hgreater (of_decide_eq_true hless)

/-- What is entered stays so, as long as nothing resets all and none of it is left. -/
theorem suffix_next (hc : c.Descending) (h : outer <:+ c.stack) (hreset : step ≠ .reset)
    (hleave : ∀ j ∈ outer, step ≠ .leave j) : outer <:+ (c.next step).stack := by
  by_cases henters : c.Enters step
  · rw [stack_of_enters henters]
    exact h.trans (List.suffix_cons _ _)
  cases step with
  | enter => exact absurd trivial henters
  | leave audience =>
    rw [next]
    split
    · next hmem =>
      -- the audience that is left is not among these, so it is inside all of them
      obtain ⟨inner, hsplit⟩ := h
      have hpairwise := hc.pairwise
      rw [← hsplit] at hmem hpairwise
      have hinner := (List.mem_append.mp hmem).resolve_right fun hj => hleave audience hj rfl
      have hless : ∀ j ∈ outer, decide (j < audience) = true := fun j hj =>
        decide_eq_true ((List.pairwise_append.mp hpairwise).2.2 audience hinner j hj)
      dsimp only
      rw [← hsplit, List.filter_append, List.filter_eq_self.mpr hless]
      exact List.suffix_append _ _
    · exact h
  | subscribe listener =>
    rw [stack_subscribe henters]
    exact h
  | cancel n => exact h
  | reset => exact absurd rfl hreset

theorem suffix_after (hc : c.Descending) (h : outer <:+ c.stack) (hreset : .reset ∉ later)
    (hleave : ∀ j ∈ outer, .leave j ∉ later) : outer <:+ (c.after later).stack := by
  induction later generalizing c with
  | nil => exact h
  | cons step rest ih =>
    refine ih (hc.next step) (suffix_next hc h ?_ fun j hj => ?_) ?_ fun j hj => ?_
    · exact fun heq => hreset (heq ▸ List.mem_cons_self)
    · exact fun heq => hleave j hj (heq ▸ List.mem_cons_self)
    · exact fun hmem => hreset (List.mem_cons_of_mem step hmem)
    · exact fun hmem => hleave j hj (List.mem_cons_of_mem step hmem)

/-- An audience that was entered and not left is on the stack, with those that were around it. -/
theorem suffix_of_enters (hc : c.stack = []) {before : List (PropagationStep L)}
    (henters : (c.after before).Enters step) (hreset : .reset ∉ later)
    (hleave : ∀ j ∈ (c.after before).audiences :: (c.after before).stack, .leave j ∉ later) :
    (c.after before).audiences :: (c.after before).stack <:+
      (c.after (before ++ step :: later)).stack := by
  have hentered := stack_of_enters henters
  have hdescending := ((descending_of_nil hc).after before).next step
  rw [after_append]
  exact suffix_after (c := (c.after before).next step) hdescending
    (hentered ▸ List.suffix_refl _) hreset hleave

/-- What was entered and is still on the stack after one more step was not left by it. -/
theorem EnteredSince.concat (hc : c.stack = []) (h : c.EnteredSince steps i)
    (hi : i ∈ ((c.after steps).next step).stack) : c.EnteredSince (steps ++ [step]) i := by
  obtain ⟨before, first, later, rfl, henters, rfl, hreset, hleave⟩ := h
  refine ⟨before, first, later ++ [step], by simp, henters, rfl, ?_, fun j hj => ?_⟩
  · rw [List.mem_append, List.mem_singleton, not_or]
    refine ⟨hreset, ?_⟩
    rintro rfl
    exact absurd hi List.not_mem_nil
  · rw [List.mem_append, List.mem_singleton, not_or]
    refine ⟨hleave j hj, ?_⟩
    rintro rfl
    -- the audience that is left is this one or one around it
    rw [next, if_pos ((suffix_of_enters hc henters hreset hleave).subset hj)] at hi
    have hless := of_decide_eq_true (List.mem_filter.mp hi).2
    rcases List.mem_cons.mp hj with rfl | hj
    · exact Nat.lt_irrefl _ hless
    · exact Nat.lt_asymm (((descending_of_nil hc).after before).lt j hj) hless

/-- **The audiences on the stack** are those that were entered and not left. -/
theorem mem_stack_after (hc : c.stack = []) (steps : List (PropagationStep L)) (i : Nat) :
    i ∈ (c.after steps).stack ↔ c.EnteredSince steps i := by
  constructor
  · intro hi
    induction steps using List.reverseRecOn with
    | nil => exact absurd (hc ▸ hi) List.not_mem_nil
    | append_singleton steps step ih =>
      rw [after_concat] at hi
      by_cases hold : i ∈ (c.after steps).stack
      · exact (ih hold).concat hc hi
      · by_cases henters : (c.after steps).Enters step
        · rw [stack_of_enters henters] at hi
          exact ⟨steps, step, [], rfl, henters, (List.mem_cons.mp hi).resolve_right hold,
            List.not_mem_nil, fun _ _ => List.not_mem_nil⟩
        · exact absurd ((stack_of_not_enters henters).subset hi) hold
  · rintro ⟨before, step, later, rfl, henters, rfl, hreset, hleave⟩
    exact (suffix_of_enters hc henters hreset hleave).subset List.mem_cons_self

/-! ### Which subscriptions there are -/

theorem subscribed_concat (audience : Nat) (c : PropagationCourse)
    (steps : List (PropagationStep L)) (step : PropagationStep L) :
    subscribed audience c (steps ++ [step]) =
      (subscribed audience c steps).filter (fun l => !step.cancels l.1) ++
        (c.after steps).made audience step := by
  induction steps generalizing c with
  | nil => simp [subscribed, after]
  | cons first rest ih =>
    rw [List.cons_append, subscribed, ih, subscribed, List.filter_append, List.filter_filter,
      List.append_assoc]
    refine congrArg (· ++ _) (List.filter_congr fun l _ => ?_)
    simp [Bool.and_comm]

theorem made_subscribe (h : (c.next (.subscribe listener)).stack.head? = some audience) (i : Nat) :
    c.made i (.subscribe listener) =
      if audience = i then [(c.subscriptions, listener)] else [] := by
  rw [made, h]
  simp only [Option.some.injEq]

end PropagationCourse

end RpkiAuthority
