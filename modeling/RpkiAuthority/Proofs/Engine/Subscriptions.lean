import Mathlib.Data.List.Nodup
import RpkiAuthority.Proofs.Engine.Audience
import RpkiAuthority.Proofs.Engine.Entered

/-!
# To whom events go

Audiences and subscriptions are kept in lists, and known by their numbers. Whatever is entered,
left, subscribed, cancelled and reset, and in whatever order: the lists come to what can be told
from the steps alone (`Propagation.course_perform`, `Propagation.told_after`), and so events go to
whom they should (`Propagation.after_delivers`).

A reset only ever drops things, yet guards and subscriptions from before it go on to exist. That
they do no harm comes from numbers that are never given again: everything after the reset has higher
numbers (`Propagation.Since`), so leaving or cancelling a lower one finds nothing.
-/

namespace RpkiAuthority

namespace Propagation

variable {L : Type} {s : Propagation L} {c : PropagationCourse} {step : PropagationStep L}
  {audience i : Nat} {listener : L}

/-- What a step leads to. -/
def perform (s : Propagation L) : PropagationStep L → Propagation L
  | .enter => s.enter.2
  | .leave audience => s.leave audience
  | .subscribe listener => (s.subscribe listener).2
  | .cancel subscription => s.cancel subscription
  | .reset => s.reset.2

/-- What some steps lead to. -/
def after (s : Propagation L) (steps : List (PropagationStep L)) : Propagation L :=
  steps.foldl perform s

theorem after_append (s : Propagation L) (steps later : List (PropagationStep L)) :
    s.after (steps ++ later) = (s.after steps).after later := List.foldl_append

theorem after_concat (s : Propagation L) (steps : List (PropagationStep L))
    (step : PropagationStep L) : s.after (steps ++ [step]) = (s.after steps).perform step :=
  after_append s steps [step]

/-! ### What there is -/

/-- The numbers of all audiences. -/
def ids (s : Propagation L) : List Nat := s.audiences.map Audience.id

/-- All subscriptions, audience by audience. -/
def subscriptions (s : Propagation L) : List (Nat × L) := s.audiences.flatMap Audience.listeners

theorem ids_enter (s : Propagation L) : s.enter.2.ids = s.ids ++ [s.nextAudience] := List.map_append

theorem subscriptions_enter (s : Propagation L) : s.enter.2.subscriptions = s.subscriptions := by
  simp [subscriptions, enter]

theorem ids_cancel (s : Propagation L) (n : Nat) : (s.cancel n).ids = s.ids := List.map_map

/-- Cancelling drops the subscriptions with the number. -/
theorem subscriptions_cancel (s : Propagation L) (n : Nat) :
    (s.cancel n).subscriptions = s.subscriptions.filter fun l => l.1 != n := by
  rw [subscriptions, subscriptions, List.filter_flatMap]
  exact List.flatMap_map _ _ _

theorem ids_subscribeTo (s : Propagation L) (audience : Nat) (listener : L) :
    (s.subscribeTo audience listener).2.ids = s.ids := by
  show List.map Audience.id (List.map _ _) = _
  rw [List.map_map]
  refine List.map_congr_left fun a _ => ?_
  rw [Function.comp_apply]
  split <;> rfl

/-! ### Leaving -/

theorem leave_eq_self (h : audience ∉ s.entered) : s.leave audience = s := by
  rw [leave, if_neg]
  rwa [List.contains_iff_mem]

/-- Leaving an audience leaves it and those inside it. -/
theorem leave_eq {inner outer : List Nat} (h : s.entered = inner ++ audience :: outer)
    (hfirst : audience ∉ inner) : s.leave audience = { s with entered := outer } := by
  have hinner : ∀ i ∈ inner, (i != audience) = true := by
    intro i hi
    rw [bne_iff_ne]
    rintro rfl
    exact hfirst hi
  rw [leave, if_pos (by simp [h]), h, List.dropWhile_append_of_pos hinner,
    List.dropWhile_cons_of_neg (by simp), List.drop_one, List.tail_cons]

/-- An audience that is entered has those inside it before it and those around it behind. -/
theorem leave_cases (s : Propagation L) (audience : Nat) :
    audience ∉ s.entered ∧ s.leave audience = s ∨
      ∃ inner outer, s.entered = inner ++ audience :: outer ∧ audience ∉ inner ∧
        s.leave audience = { s with entered := outer } := by
  by_cases h : audience ∈ s.entered
  · obtain ⟨inner, outer, hsplit, hfirst⟩ := List.eq_append_cons_of_mem h
    exact Or.inr ⟨inner, outer, hsplit, hfirst, leave_eq hsplit hfirst⟩
  · exact Or.inl ⟨h, leave_eq_self h⟩

/-! ### Subscribing -/

/-- A subscription to one of several audiences is one more. -/
theorem perm_flatMap_subscribed {audiences : List (Audience L)} (l : Nat × L)
    (hdistinct : (audiences.map Audience.id).Nodup) (hmem : audience ∈ audiences.map Audience.id) :
    ((audiences.map fun a =>
        if a.id = audience then { a with listeners := a.listeners ++ [l] } else a).flatMap
      Audience.listeners).Perm (audiences.flatMap Audience.listeners ++ [l]) := by
  induction audiences with
  | nil => exact absurd hmem List.not_mem_nil
  | cons a rest ih =>
    rw [List.map_cons, List.nodup_cons] at hdistinct
    obtain ⟨hnot, hdistinct⟩ := hdistinct
    rw [List.map_cons, List.flatMap_cons, List.flatMap_cons]
    by_cases ha : a.id = audience
    · have hrest : rest.map (fun a =>
          if a.id = audience then { a with listeners := a.listeners ++ [l] } else a) = rest := by
        refine (List.map_congr_left fun b hb => ?_).trans (List.map_id _)
        exact if_neg fun hid => hnot (List.mem_map.mpr ⟨b, hb, hid.trans ha.symm⟩)
      rw [if_pos ha, hrest, List.append_assoc, List.append_assoc]
      exact List.perm_append_comm.append_left _
    · have hrest := (List.mem_cons.mp hmem).resolve_left fun hid => ha hid.symm
      rw [if_neg ha, List.append_assoc]
      exact (ih hdistinct hrest).append_left _

theorem perm_subscriptions_subscribeTo (hdistinct : s.ids.Nodup) (hmem : audience ∈ s.ids)
    (listener : L) : (s.subscribeTo audience listener).2.subscriptions.Perm
      (s.subscriptions ++ [(s.nextSubscription, listener)]) :=
  perm_flatMap_subscribed _ hdistinct hmem

/-- **A listener is subscribed to the innermost audience**, which is entered for it where there is
none. -/
theorem subscribe_cases (s : Propagation L) (listener : L) :
    (∃ audience outer, s.entered = audience :: outer ∧
      s.subscribe listener = s.subscribeTo audience listener) ∨
    s.entered = [] ∧ s.subscribe listener = s.enter.2.subscribeTo s.nextAudience listener := by
  rw [subscribe]
  cases s.entered with
  | nil => exact Or.inr ⟨rfl, rfl⟩
  | cons audience outer => exact Or.inl ⟨audience, outer, rfl, rfl⟩

/-- Who subscribes is given the next number, in whatever audience that is. -/
theorem subscribe_fst (s : Propagation L) (listener : L) :
    (s.subscribe listener).1 = s.nextSubscription := by
  rcases subscribe_cases s listener with ⟨_, _, -, heq⟩ | ⟨-, heq⟩ <;> rw [heq] <;> rfl

/-! ### Stacks of audiences -/

/-- **A stack of audiences**: each one that is entered is on the list, those inside have the higher
numbers, no number is used that was not given yet, and none is used twice. -/
structure Stacked (s : Propagation L) : Prop where
  listed : ∀ i ∈ s.entered, i ∈ s.ids
  descending : s.entered.Pairwise (· > ·)
  ids_lt : ∀ i ∈ s.ids, i < s.nextAudience
  subscriptions_lt : ∀ l ∈ s.subscriptions, l.1 < s.nextSubscription
  distinct : s.ids.Nodup
  numbered : (s.subscriptions.map Prod.fst).Nodup

theorem Stacked.entered_lt (h : s.Stacked) (hi : i ∈ s.entered) : i < s.nextAudience :=
  h.ids_lt i (h.listed i hi)

/-- Nothing is entered, and nobody subscribed. -/
structure Blank (s : Propagation L) : Prop where
  entered : s.entered = []
  audiences : s.audiences = []

theorem blank_new : (new : Propagation L).Blank := ⟨rfl, rfl⟩

theorem blank_reset (s : Propagation L) : s.reset.2.Blank := ⟨rfl, rfl⟩

theorem Blank.stacked (h : s.Blank) : s.Stacked := by
  obtain ⟨hentered, haudiences⟩ := h
  constructor <;> simp [hentered, haudiences, ids, subscriptions]

theorem Stacked.enter (h : s.Stacked) : s.enter.2.Stacked where
  listed i hi := by
    rw [ids_enter, List.mem_append, List.mem_singleton]
    exact (List.mem_cons.mp hi).symm.imp_left (h.listed i)
  descending := List.pairwise_cons.mpr ⟨fun _ hi => h.entered_lt hi, h.descending⟩
  ids_lt i hi := by
    rw [ids_enter, List.mem_append, List.mem_singleton] at hi
    exact Nat.lt_succ_of_le (hi.elim (fun hi => Nat.le_of_lt (h.ids_lt i hi)) Nat.le_of_eq)
  subscriptions_lt := subscriptions_enter s ▸ h.subscriptions_lt
  distinct := by
    rw [ids_enter, List.nodup_append]
    refine ⟨h.distinct, List.nodup_singleton _, fun i hi j hj => ?_⟩
    rw [List.mem_singleton.mp hj]
    exact Nat.ne_of_lt (h.ids_lt i hi)
  numbered := subscriptions_enter s ▸ h.numbered

theorem Stacked.leave (h : s.Stacked) (audience : Nat) : (s.leave audience).Stacked := by
  rcases leave_cases s audience with ⟨-, heq⟩ | ⟨inner, outer, hsplit, -, heq⟩
  · rw [heq]
    exact h
  · have hsub : outer.Sublist s.entered :=
      hsplit ▸ (List.sublist_cons_self audience outer).trans (List.sublist_append_right inner _)
    rw [heq]
    exact { h with
      listed := fun i hi => h.listed i (hsub.subset hi)
      descending := h.descending.sublist hsub }

theorem Stacked.subscribeTo (h : s.Stacked) (listener : L) (hmem : audience ∈ s.ids) :
    (s.subscribeTo audience listener).2.Stacked := by
  have hids := ids_subscribeTo s audience listener
  have hperm := perm_subscriptions_subscribeTo h.distinct hmem listener
  refine ⟨hids ▸ h.listed, h.descending, hids ▸ h.ids_lt, fun l hl => ?_, hids ▸ h.distinct, ?_⟩
  · rw [hperm.mem_iff, List.mem_append, List.mem_singleton] at hl
    rcases hl with hl | rfl
    · exact Nat.lt_succ_of_lt (h.subscriptions_lt l hl)
    · exact Nat.lt_succ_self _
  · rw [(hperm.map Prod.fst).nodup_iff, List.map_append, List.nodup_append]
    refine ⟨h.numbered, List.nodup_singleton _, fun n hn m hm => ?_⟩
    obtain ⟨l, hl, rfl⟩ := List.mem_map.mp hn
    rw [List.mem_singleton.mp hm]
    exact Nat.ne_of_lt (h.subscriptions_lt l hl)

theorem Stacked.subscribe (h : s.Stacked) (listener : L) : (s.subscribe listener).2.Stacked := by
  rcases subscribe_cases s listener with ⟨audience, outer, hentered, heq⟩ | ⟨-, heq⟩
  · rw [heq]
    exact h.subscribeTo listener (h.listed audience (hentered ▸ List.mem_cons_self))
  · rw [heq]
    exact h.enter.subscribeTo listener (h.enter.listed _ List.mem_cons_self)

theorem Stacked.cancel (h : s.Stacked) (n : Nat) : (s.cancel n).Stacked where
  listed := ids_cancel s n ▸ h.listed
  descending := h.descending
  ids_lt := ids_cancel s n ▸ h.ids_lt
  subscriptions_lt l hl := by
    rw [subscriptions_cancel] at hl
    exact h.subscriptions_lt l (List.mem_of_mem_filter hl)
  distinct := ids_cancel s n ▸ h.distinct
  numbered := by
    rw [subscriptions_cancel]
    exact h.numbered.sublist (List.filter_sublist.map _)

/-- **Every step keeps a stack of audiences.** -/
theorem Stacked.perform (h : s.Stacked) (step : PropagationStep L) : (s.perform step).Stacked := by
  cases step with
  | enter => exact h.enter
  | leave audience => exact h.leave audience
  | subscribe listener => exact h.subscribe listener
  | cancel n => exact h.cancel n
  | reset => exact (blank_reset s).stacked

theorem Stacked.after (h : s.Stacked) (steps : List (PropagationStep L)) :
    (s.after steps).Stacked := by
  induction steps generalizing s with
  | nil => exact h
  | cons step rest ih => exact ih (h.perform step)

/-! ### As the steps tell -/

/-- What is told of the steps so far. -/
def course (s : Propagation L) : PropagationCourse :=
  ⟨s.entered, s.nextAudience, s.nextSubscription⟩

/-- **A step leads to what is told of it.** -/
theorem course_perform (hs : s.Stacked) (step : PropagationStep L) :
    (s.perform step).course = s.course.next step := by
  cases step with
  | enter | cancel | reset => rfl
  | leave audience =>
    rw [perform, PropagationCourse.next]
    rcases leave_cases s audience with ⟨hout, heq⟩ | ⟨inner, outer, hsplit, -, heq⟩
    · rw [heq, if_neg (show audience ∉ s.course.stack from hout)]
    · have hstack : s.course.stack = inner ++ audience :: outer := hsplit
      have hpairwise : s.course.stack.Pairwise (· > ·) := hs.descending
      rw [hstack] at hpairwise
      rw [heq, hstack, if_pos (List.mem_append_right _ List.mem_cons_self),
        PropagationCourse.filter_lt_of_pairwise hpairwise]
      rfl
  | subscribe listener =>
    rw [perform, PropagationCourse.next]
    rcases subscribe_cases s listener with ⟨audience, outer, hentered, heq⟩ | ⟨hnone, heq⟩
    · have hsome : s.course.stack ≠ [] := List.ne_nil_of_mem (hentered ▸ List.mem_cons_self)
      rw [heq, if_neg hsome]
      rfl
    · rw [heq, if_pos (show s.course.stack = [] from hnone)]
      rfl

theorem course_after (hs : s.Stacked) (steps : List (PropagationStep L)) :
    (s.after steps).course = s.course.after steps := by
  induction steps generalizing s with
  | nil => rfl
  | cons step rest ih =>
    show ((s.perform step).after rest).course = (s.course.next step).after rest
    rw [ih (hs.perform step), course_perform hs]

/-! ### Which subscriptions are kept -/

/-- The audiences have the listeners that an account tells of, in which new ones have none. -/
structure Told (s : Propagation L) (account : Nat → List (Nat × L)) : Prop where
  listeners : ∀ a ∈ s.audiences, a.listeners = account a.id
  fresh : ∀ i, s.nextAudience ≤ i → account i = []

variable {account : Nat → List (Nat × L)}

theorem Told.enter (h : s.Told account) : s.enter.2.Told account := by
  refine ⟨fun a ha => ?_, fun i hi => h.fresh i (Nat.le_of_succ_le hi)⟩
  rcases List.mem_append.mp ha with ha | ha
  · exact h.listeners a ha
  · rw [List.mem_singleton.mp ha]
    exact (h.fresh s.nextAudience (Nat.le_refl _)).symm

theorem Told.subscribeTo (h : s.Told account) (hlt : audience < s.nextAudience) (listener : L) :
    (s.subscribeTo audience listener).2.Told fun i =>
      account i ++ if audience = i then [(s.nextSubscription, listener)] else [] := by
  refine ⟨fun a ha => ?_, fun i hi => ?_⟩
  · obtain ⟨b, hb, rfl⟩ := List.mem_map.mp ha
    by_cases hid : b.id = audience
    · rw [if_pos hid, if_pos hid.symm, h.listeners b hb]
    · rw [if_neg hid, if_neg (Ne.symm hid), h.listeners b hb, List.append_nil]
  · have hne : audience ≠ i := Nat.ne_of_lt (Nat.lt_of_lt_of_le hlt hi)
    rw [h.fresh i hi, if_neg hne, List.append_nil]

/-- **One step changes the account by what it makes and cancels.** -/
theorem Told.perform (h : s.Told account) (hs : s.Stacked) (step : PropagationStep L) :
    (s.perform step).Told fun i =>
      (account i).filter (fun l => !step.cancels l.1) ++ s.course.made i step := by
  have hkept : ∀ i, (account i).filter (fun _ => true) ++ [] = account i := by simp
  cases step with
  | enter =>
    show s.enter.2.Told fun i => (account i).filter (fun _ => true) ++ []
    simpa only [hkept] using h.enter
  | leave audience =>
    show (s.leave audience).Told fun i => (account i).filter (fun _ => true) ++ []
    simp only [hkept]
    rcases leave_cases s audience with ⟨-, heq⟩ | ⟨inner, outer, -, -, heq⟩
    · rwa [heq]
    · rw [heq]
      exact ⟨h.listeners, h.fresh⟩
  | subscribe listener =>
    show (s.subscribe listener).2.Told fun i =>
      (account i).filter (fun _ => true) ++ s.course.made i (.subscribe listener)
    simp only [List.filter_true]
    have hstack : (s.course.next (.subscribe listener)).stack = (s.subscribe listener).2.entered :=
      congrArg PropagationCourse.stack (course_perform hs (.subscribe listener)).symm
    rcases subscribe_cases s listener with ⟨audience, outer, hentered, heq⟩ | ⟨-, heq⟩
    · have hto : (s.course.next (.subscribe listener)).stack.head? = some audience := by
        rw [hstack, heq]
        exact congrArg List.head? hentered
      simp only [PropagationCourse.made_subscribe hto]
      rw [heq]
      exact h.subscribeTo (hs.entered_lt (hentered ▸ List.mem_cons_self)) listener
    · have hto : (s.course.next (.subscribe listener)).stack.head? = some s.nextAudience := by
        rw [hstack, heq]
        rfl
      simp only [PropagationCourse.made_subscribe hto]
      rw [heq]
      exact h.enter.subscribeTo (Nat.lt_succ_self _) listener
  | cancel n =>
    refine ⟨fun a ha => ?_, fun i hi => ?_⟩
    · obtain ⟨b, hb, rfl⟩ := List.mem_map.mp ha
      show b.listeners.filter _ = (account b.id).filter _ ++ []
      rw [List.append_nil, h.listeners b hb]
      rfl
    · show (account i).filter _ ++ [] = []
      rw [h.fresh i hi, List.filter_nil, List.append_nil]
  | reset =>
    refine ⟨fun a ha => absurd ha List.not_mem_nil, fun i hi => ?_⟩
    show (account i).filter _ ++ [] = []
    rw [h.fresh i hi, List.filter_nil, List.append_nil]

/-- **The listeners of an audience** are those subscribed to it and not cancelled. -/
theorem told_after (h : s.Blank) (steps : List (PropagationStep L)) :
    (s.after steps).Told fun i => PropagationCourse.subscribed i s.course steps := by
  induction steps using List.reverseRecOn with
  | nil => exact ⟨fun a ha => absurd ha (by simp [after, h.audiences]), fun _ _ => rfl⟩
  | append_singleton steps step ih =>
    rw [after_concat]
    simp only [PropagationCourse.subscribed_concat, ← course_after h.stacked]
    exact ih.perform (h.stacked.after steps) step

/-- **Events go to whom they should.** -/
theorem listeners_after (h : s.Blank) (steps : List (PropagationStep L)) :
    (s.after steps).listeners = s.course.recipients steps := by
  rw [listeners, PropagationCourse.recipients, ← course_after h.stacked, course]
  cases hentered : (s.after steps).entered with
  | nil => rfl
  | cons audience outer =>
    obtain ⟨a, ha, hid⟩ := List.mem_map.mp
      ((h.stacked.after steps).listed audience (hentered ▸ List.mem_cons_self))
    have hfound : ((s.after steps).audiences.find? fun a => a.id == audience).isSome = true :=
      List.find?_isSome.mpr ⟨a, ha, beq_iff_eq.mpr hid⟩
    obtain ⟨b, hb⟩ := Option.isSome_iff_exists.mp hfound
    have hnumber : b.id = audience := by simpa using List.find?_some hb
    dsimp only
    rw [hb, ← hnumber]
    exact congrArg (fun l => (l.map Prod.snd).reverse)
      ((told_after h steps).listeners b (List.mem_of_find?_eq_some hb))

/-! ### After a reset -/

/-- A step makes no subscription but one with a new number. -/
theorem mem_subscriptions_perform (hs : s.Stacked) {l : Nat × L}
    (h : l ∈ (s.perform step).subscriptions) : l ∈ s.subscriptions ∨ l.1 = s.nextSubscription := by
  cases step with
  | enter => exact Or.inl (subscriptions_enter s ▸ h)
  | leave audience =>
    rw [perform] at h
    rcases leave_cases s audience with ⟨-, heq⟩ | ⟨inner, outer, -, -, heq⟩ <;> rw [heq] at h <;>
      exact Or.inl h
  | subscribe listener =>
    rw [perform] at h
    have hone : l ∈ s.subscriptions ++ [(s.nextSubscription, listener)] := by
      rcases subscribe_cases s listener with ⟨audience, outer, hentered, heq⟩ | ⟨-, heq⟩
      · rw [heq] at h
        refine (perm_subscriptions_subscribeTo hs.distinct ?_ listener).mem_iff.mp h
        exact hs.listed audience (hentered ▸ List.mem_cons_self)
      · rw [heq] at h
        have hmem := hs.enter.listed s.nextAudience List.mem_cons_self
        have hl := (perm_subscriptions_subscribeTo hs.enter.distinct hmem listener).mem_iff.mp h
        rwa [subscriptions_enter] at hl
    rw [List.mem_append, List.mem_singleton] at hone
    exact hone.imp_right fun hl => congrArg Prod.fst hl
  | cancel n =>
    rw [perform, subscriptions_cancel] at h
    exact Or.inl (List.mem_of_mem_filter h)
  | reset => exact absurd h List.not_mem_nil

/-- **Everything came later**: no audience is entered and no subscription kept that had its number
before. -/
structure Since (c : PropagationCourse) (s : Propagation L) : Prop where
  entered : ∀ i ∈ s.entered, c.audiences ≤ i
  subscriptions : ∀ l ∈ s.subscriptions, c.subscriptions ≤ l.1
  nextAudience : c.audiences ≤ s.nextAudience
  nextSubscription : c.subscriptions ≤ s.nextSubscription

theorem since_reset (s : Propagation L) : Since s.course s.reset.2 :=
  ⟨fun _ h => absurd h List.not_mem_nil, fun _ h => absurd h List.not_mem_nil, Nat.le_refl _,
    Nat.le_refl _⟩

theorem Since.perform (h : Since c s) (hs : s.Stacked) (step : PropagationStep L) :
    Since c (s.perform step) := by
  have hcourse := course_perform hs step
  obtain ⟨hnextAudience, hnextSubscription⟩ := s.course.le_next step
  rw [← hcourse] at hnextAudience hnextSubscription
  refine ⟨fun i hi => ?_, fun l hl => ?_, Nat.le_trans h.nextAudience hnextAudience,
    Nat.le_trans h.nextSubscription hnextSubscription⟩
  · have hi : i ∈ (s.course.next step).stack := hcourse ▸ hi
    by_cases henters : s.course.Enters step
    · rw [PropagationCourse.stack_of_enters henters] at hi
      rcases List.mem_cons.mp hi with rfl | hi
      · exact h.nextAudience
      · exact h.entered i hi
    · exact h.entered i ((PropagationCourse.stack_of_not_enters henters).subset hi)
  · exact (mem_subscriptions_perform hs hl).elim (h.subscriptions l)
      fun hnew => hnew ▸ h.nextSubscription

/-- Cancelling what is not subscribed changes nothing. -/
theorem cancel_eq_self {n : Nat} (h : ∀ l ∈ s.subscriptions, l.1 ≠ n) : s.cancel n = s := by
  have hsame : s.audiences.map (fun a =>
      { a with listeners := a.listeners.filter fun l => l.1 != n }) = s.audiences := by
    refine (List.map_congr_left fun a ha => ?_).trans (List.map_id _)
    have hall : a.listeners.filter (fun l => l.1 != n) = a.listeners :=
      List.filter_eq_self.mpr fun l hl => bne_iff_ne.mpr (h l (List.mem_flatMap.mpr ⟨a, ha, hl⟩))
    rw [hall]
    rfl
  rw [cancel, hsame]

/-- **What was there before a reset is dropped without effect** after it. -/
theorem Since.perform_eq_self (h : Since c s) (hbefore : step.isBefore c = true) :
    s.perform step = s := by
  cases step with
  | leave audience =>
    refine leave_eq_self fun hmem => ?_
    exact Nat.not_le.mpr (of_decide_eq_true hbefore) (h.entered audience hmem)
  | cancel n =>
    refine cancel_eq_self fun l hl hn => ?_
    exact Nat.not_le.mpr (of_decide_eq_true hbefore) (hn ▸ h.subscriptions l hl)
  | enter => exact Bool.noConfusion hbefore
  | subscribe listener => exact Bool.noConfusion hbefore
  | reset => exact Bool.noConfusion hbefore

theorem Since.after_filter (h : Since c s) (hs : s.Stacked) (later : List (PropagationStep L)) :
    s.after (later.filter fun step => !step.isBefore c) = s.after later := by
  induction later generalizing s with
  | nil => rfl
  | cons step rest ih =>
    rw [List.filter_cons]
    cases hbefore : step.isBefore c with
    | true =>
      rw [if_neg (by simp), ih h hs]
      show s.after rest = (s.perform step).after rest
      rw [h.perform_eq_self hbefore]
    | false =>
      rw [if_pos (by simp)]
      exact ih (h.perform hs step) (hs.perform step)

/-! ### Any course of steps -/

open PropagationCourse in
/-- **To whom events go.** Whatever is entered, left, subscribed, cancelled and reset, and in
whatever order, is told from the steps alone: the audiences entered are those that were entered and
not left, the last one innermost. Who enters or subscribes is given the number by which to leave and
to cancel, that of the audiences or subscriptions so far. An event goes to the listeners subscribed
to the innermost audience and not cancelled since, to the last one first. Leaving an audience leaves
it and those inside it, and nothing else, and if it is not entered nothing at all. Cancelling drops
what has the number and nothing else, and that is one subscription at most. After a reset an event
goes only to listeners subscribed after it, and to leave or to cancel what had its number before
makes no difference to anything. -/
theorem after_delivers (steps : List (PropagationStep L)) :
    ((new.after steps).entered = (start.after steps).stack ∧
      (new.after steps).entered.Pairwise (· > ·) ∧
      ∀ i, i ∈ (new.after steps).entered ↔ start.EnteredSince steps i) ∧
    ((new.after steps).enter.1 = (start.after steps).audiences ∧
      ∀ listener, ((new.after steps).subscribe listener).1 = (start.after steps).subscriptions) ∧
    (new.after steps).listeners = start.recipients steps ∧
    (∀ audience ∉ (new.after steps).entered, (new.after steps).leave audience = new.after steps) ∧
    (∀ inner audience outer, (new.after steps).entered = inner ++ audience :: outer →
      (new.after steps).leave audience = { new.after steps with entered := outer }) ∧
    (∀ n, ((new.after steps).cancel n).entered = (new.after steps).entered ∧
      ((new.after steps).cancel n).subscriptions =
        (new.after steps).subscriptions.filter fun l => l.1 != n) ∧
    ((new.after steps).subscriptions.map Prod.fst).Nodup ∧
    ∀ later, (new.after (steps ++ .reset :: later)).listeners =
        { start.after steps with stack := [] }.recipients later ∧
      new.after (steps ++ .reset :: later) = new.after
        (steps ++ .reset :: later.filter fun step => !step.isBefore (start.after steps)) := by
  have hs := (blank_new (L := L)).stacked.after steps
  have hcourse : (new.after steps).course = start.after steps :=
    course_after blank_new.stacked steps
  have hentered : (new.after steps).entered = (start.after steps).stack :=
    congrArg PropagationCourse.stack hcourse
  refine ⟨⟨hentered, hs.descending, fun i => ?_⟩,
    ⟨congrArg PropagationCourse.audiences hcourse, fun listener => ?_⟩,
    listeners_after blank_new steps, fun _ => leave_eq_self,
    fun inner audience outer hsplit => leave_eq hsplit fun hmem => ?_,
    fun n => ⟨rfl, subscriptions_cancel _ n⟩, hs.numbered, fun later => ⟨?_, ?_⟩⟩
  · rw [hentered]
    exact mem_stack_after rfl steps i
  · rw [subscribe_fst]
    exact congrArg PropagationCourse.subscriptions hcourse
  · -- an audience further inside has a higher number
    have hdescending := hs.descending
    rw [hsplit] at hdescending
    exact Nat.lt_irrefl audience
      ((List.pairwise_append.mp hdescending).2.2 audience hmem audience List.mem_cons_self)
  · rw [List.append_cons, after_append, after_concat, ← hcourse]
    exact listeners_after (blank_reset _) later
  · rw [after_append, after_append, ← hcourse]
    exact ((since_reset (new.after steps)).after_filter (blank_reset _).stacked later).symm

/-- Audiences that are left from the middle, a subscription that is cancelled and another one
outside of any audience. -/
def crossed : List (PropagationStep String) :=
  [.enter, .subscribe "a", .enter, .subscribe "b", .enter, .subscribe "c", .cancel 0, .leave 1,
    .subscribe "d", .subscribe "e", .leave 0, .subscribe "f"]

/-- After the audience in the middle was left the outermost one is the innermost, and after that was
left, too, a new one is entered for who subscribes. What is left and cancelled after a reset does no
harm to what was entered since. -/
theorem after_delivers_crossed :
    ((new.after (crossed.take 10)).entered = [0] ∧
      (new.after (crossed.take 10)).listeners = ["e", "d"]) ∧
    ((new.after crossed).entered = [3] ∧ (new.after crossed).listeners = ["f"]) ∧
    (new.after (crossed ++ .reset :: [.enter, .subscribe "g", .leave 3, .cancel 5])).listeners =
      ["g"] := by
  obtain ⟨⟨hmiddle, -⟩, -, hmiddle', -⟩ := after_delivers (crossed.take 10)
  obtain ⟨⟨hentered, -⟩, -, hlisteners, -, -, -, -, hreset⟩ := after_delivers crossed
  exact ⟨⟨hmiddle.trans (by decide), hmiddle'.trans (by decide)⟩,
    ⟨hentered.trans (by decide), hlisteners.trans (by decide)⟩,
    (hreset [.enter, .subscribe "g", .leave 3, .cancel 5]).1.trans (by decide)⟩

end Propagation

end RpkiAuthority
