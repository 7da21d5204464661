import Mathlib.Data.List.Induction
import RpkiAuthority.Engine.Running

/-!
# Audiences are given back

A command enters an audience of its own and subscribes the listeners of the engine to it; when its
handler has ended the subscriptions are cancelled and the audience is left. What may have happened
in between is that other commands did the same. All of it can be told by the numbers of audiences
and subscriptions, since no number is given twice (`Propagation.Sound`).

Audiences that were left stay on the list, so the audiences are not the same as before. But they are
of no account: those before them are kept as they are, and those that were added have no listeners
left (`Propagation.Kept`). This is true of nothing happening, of one thing after the other, and of a
command around whatever it is true of (`Engine.kept_of_left`).
-/

namespace RpkiAuthority

namespace Propagation

variable {L : Type} {s t u : Propagation L}

/-- **Numbers are given once**: those that are in use were given already. -/
structure Sound (s : Propagation L) : Prop where
  audiences : ∀ a ∈ s.audiences, a.id < s.nextAudience
  entered : ∀ i ∈ s.entered, i < s.nextAudience
  subscriptions : ∀ a ∈ s.audiences, ∀ l ∈ a.listeners, l.1 < s.nextSubscription

theorem sound_new : (new : Propagation L).Sound :=
  ⟨fun _ h => absurd h List.not_mem_nil, fun _ h => absurd h List.not_mem_nil,
    fun _ h => absurd h List.not_mem_nil⟩

/-- **Audiences are kept**: the same are entered, with the listeners that they had, and all others
were added later and have none. -/
structure Kept (s t : Propagation L) : Prop where
  entered : t.entered = s.entered
  audiences : ∃ gone, t.audiences = s.audiences ++ gone ∧
    ∀ a ∈ gone, s.nextAudience ≤ a.id ∧ a.id < t.nextAudience ∧ a.listeners = []
  nextAudience : s.nextAudience ≤ t.nextAudience
  nextSubscription : s.nextSubscription ≤ t.nextSubscription

theorem Kept.refl (s : Propagation L) : s.Kept s :=
  ⟨rfl, ⟨[], (List.append_nil _).symm, fun _ h => absurd h List.not_mem_nil⟩, Nat.le_refl _,
    Nat.le_refl _⟩

theorem Kept.trans (h : s.Kept t) (h' : t.Kept u) : s.Kept u := by
  obtain ⟨gone, haudiences, hgone⟩ := h.audiences
  obtain ⟨gone', haudiences', hgone'⟩ := h'.audiences
  refine ⟨h'.entered.trans h.entered, ⟨gone ++ gone', ?_, fun a ha => ?_⟩,
    Nat.le_trans h.nextAudience h'.nextAudience,
    Nat.le_trans h.nextSubscription h'.nextSubscription⟩
  · rw [haudiences', haudiences, List.append_assoc]
  · rcases List.mem_append.mp ha with ha | ha
    · obtain ⟨hlow, hhigh, hnone⟩ := hgone a ha
      exact ⟨hlow, Nat.lt_of_lt_of_le hhigh h'.nextAudience, hnone⟩
    · obtain ⟨hlow, hhigh, hnone⟩ := hgone' a ha
      exact ⟨Nat.le_trans h.nextAudience hlow, hhigh, hnone⟩

theorem Kept.sound (h : s.Kept t) (hs : s.Sound) : t.Sound := by
  obtain ⟨gone, haudiences, hgone⟩ := h.audiences
  refine ⟨fun a ha => ?_, fun i hi => ?_, fun a ha l hl => ?_⟩
  · rw [haudiences] at ha
    rcases List.mem_append.mp ha with ha | ha
    · exact Nat.lt_of_lt_of_le (hs.audiences a ha) h.nextAudience
    · exact (hgone a ha).2.1
  · rw [h.entered] at hi
    exact Nat.lt_of_lt_of_le (hs.entered i hi) h.nextAudience
  · rw [haudiences] at ha
    rcases List.mem_append.mp ha with ha | ha
    · exact Nat.lt_of_lt_of_le (hs.subscriptions a ha l hl) h.nextSubscription
    · rw [(hgone a ha).2.2] at hl
      exact absurd hl List.not_mem_nil

theorem Kept.depth (h : s.Kept t) : t.depth = s.depth := congrArg List.length h.entered

/-- **Events go to the same listeners**: audiences that were added later are never the innermost. -/
theorem Kept.listeners (h : s.Kept t) (hs : s.Sound) : t.listeners = s.listeners := by
  obtain ⟨gone, haudiences, hgone⟩ := h.audiences
  rw [Propagation.listeners, Propagation.listeners, h.entered]
  cases hentered : s.entered with
  | nil => rfl
  | cons audience outer =>
    have hfresh : gone.find? (fun a => a.id == audience) = none := by
      refine List.find?_eq_none.mpr fun a ha heq => ?_
      have hold := hs.entered audience (hentered ▸ List.mem_cons_self)
      have hnew := (hgone a ha).1
      rw [beq_iff_eq] at heq
      omega
    dsimp only
    rw [haudiences, List.find?_append, hfresh, Option.or_none]

/-- Where there were no audiences at all, no listener is subscribed. -/
theorem Kept.listeners_eq_nil (h : new.Kept t) : ∀ a ∈ t.audiences, a.listeners = [] := by
  obtain ⟨gone, haudiences, hgone⟩ := h.audiences
  rw [haudiences]
  exact fun a ha => (hgone a ha).2.2

/-- Then nothing is dropped by a reset either. -/
theorem Kept.reset_eq_nil (h : new.Kept t) : t.reset.1 = [] := by
  refine List.filter_eq_nil_iff.mpr fun count hcount => ?_
  obtain ⟨a, ha, rfl⟩ := List.mem_map.mp hcount
  rw [h.listeners_eq_nil a ha]
  exact of_decide_eq_false rfl

end Propagation

/-! ### Leaving an audience -/

/-- Leaving the innermost audience. -/
theorem Propagation.leave_head {L : Type} {s : Propagation L} {audience : Nat} {outer : List Nat}
    (h : s.entered = audience :: outer) : s.leave audience = { s with entered := outer } := by
  rw [leave, h, List.contains_cons, beq_self_eq_true, Bool.true_or, if_pos rfl,
    List.dropWhile_cons_of_neg (by simp), List.drop_one, List.tail_cons]

/-- An audience without some of its subscriptions. -/
def Audience.without {L : Type} (ids : List Nat) (a : Audience L) : Audience L :=
  { a with listeners := a.listeners.filter fun l => !ids.contains l.1 }

theorem Audience.without_eq_self {L : Type} {ids : List Nat} {a : Audience L}
    (h : ∀ l ∈ a.listeners, l.1 ∉ ids) : a.without ids = a := by
  have hall : a.listeners.filter (fun l => !ids.contains l.1) = a.listeners :=
    List.filter_eq_self.mpr fun l hl => by simpa using h l hl
  rw [without, hall]

theorem Propagation.foldl_cancel {L : Type} (ids : List Nat) (s : Propagation L) :
    ids.foldl cancel s = { s with audiences := s.audiences.map (Audience.without ids) } := by
  induction ids generalizing s with
  | nil =>
    have hall : s.audiences.map (Audience.without []) = s.audiences :=
      (List.map_congr_left fun a _ => Audience.without_eq_self fun _ _ => List.not_mem_nil).trans
        (List.map_id _)
    rw [List.foldl_nil, hall]
  | cons id rest ih =>
    rw [List.foldl_cons, ih]
    simp only [cancel, List.map_map, mk.injEq, and_true]
    refine List.map_congr_left fun a _ => ?_
    simp only [Function.comp_apply, Audience.without, List.filter_filter, Audience.mk.injEq,
      true_and]
    refine List.filter_congr fun l _ => ?_
    rw [List.contains_cons, Bool.not_or, Bool.and_comm, bne]

/-! ### One command -/

namespace Engine

open Propagation

variable {X : Interface}

theorem subscribeAll_concat (listeners : List (Listener X)) (listener : Listener X)
    (s : Propagation (Listener X)) :
    subscribeAll (listeners ++ [listener]) s =
      ((subscribeAll listeners s).1 ++ [((subscribeAll listeners s).2.subscribe listener).1],
        ((subscribeAll listeners s).2.subscribe listener).2) := by
  rw [subscribeAll, List.foldl_append]
  rfl

/-- **The listeners of an engine get consecutive numbers** in the audience that was entered for
them. -/
theorem subscribeAll_enter {s : Propagation (Listener X)} (hs : s.Sound)
    (listeners : List (Listener X)) :
    subscribeAll listeners s.enter.2 =
      (List.range' s.nextSubscription listeners.length,
        { s.enter.2 with
          audiences := s.audiences ++ [⟨s.nextAudience,
            (List.range' s.nextSubscription listeners.length).zip listeners⟩]
          nextSubscription := s.nextSubscription + listeners.length }) := by
  induction listeners using List.reverseRecOn with
  | nil => rfl
  | append_singleton listeners listener ih =>
    have hold : s.audiences.map (fun a =>
        if a.id = s.nextAudience then
          { a with listeners :=
              a.listeners ++ [(s.nextSubscription + listeners.length, listener)] }
        else a) = s.audiences := by
      refine (List.map_congr_left fun a ha => ?_).trans (List.map_id _)
      exact if_neg (Nat.ne_of_lt (hs.audiences a ha))
    have hzip : (List.range' s.nextSubscription listeners.length ++
          [s.nextSubscription + listeners.length]).zip (listeners ++ [listener]) =
        (List.range' s.nextSubscription listeners.length).zip listeners ++
          [(s.nextSubscription + listeners.length, listener)] := by
      rw [List.zip_append (by rw [List.length_range']), List.zip_cons_cons, List.zip_nil_right]
    rw [subscribeAll_concat, ih]
    simp only [subscribe, enter, subscribeTo, List.length_append, List.length_singleton,
      List.map_append, List.map_cons, List.map_nil, if_true, hold, List.range'_1_concat, hzip,
      Nat.add_assoc]

variable (listeners : List (Listener X)) {s t : Propagation (Listener X)} (hs : s.Sound)

include hs

/-- Numbers are still given once after a command has begun. -/
theorem sound_subscribeAll : (subscribeAll listeners s.enter.2).2.Sound := by
  rw [subscribeAll_enter hs]
  refine ⟨fun a ha => ?_, fun i hi => ?_, fun a ha l hl => ?_⟩
  · rcases List.mem_append.mp ha with ha | ha
    · exact Nat.lt_succ_of_lt (hs.audiences a ha)
    · rw [List.mem_singleton.mp ha]
      exact Nat.lt_succ_self _
  · rcases List.mem_cons.mp hi with rfl | hi
    · exact Nat.lt_succ_self _
    · exact Nat.lt_succ_of_lt (hs.entered i hi)
  · rcases List.mem_append.mp ha with ha | ha
    · exact Nat.lt_add_right _ (hs.subscriptions a ha l hl)
    · rw [List.mem_singleton.mp ha] at hl
      exact (List.mem_range'_1.mp (List.of_mem_zip hl).1).2

/-- **The events of a command go to all listeners of the engine**, to the last one first. -/
theorem listeners_subscribeAll :
    (subscribeAll listeners s.enter.2).2.listeners = listeners.reverse := by
  have hfresh : s.audiences.find? (fun a => a.id == s.nextAudience) = none := by
    refine List.find?_eq_none.mpr fun a ha heq => ?_
    exact Nat.ne_of_lt (hs.audiences a ha) (beq_iff_eq.mp heq)
  rw [subscribeAll_enter hs]
  simp only [Propagation.listeners, enter, List.find?_append, hfresh, Option.none_or,
    List.find?_cons, beq_self_eq_true]
  rw [List.map_snd_zip (Nat.le_of_eq (by rw [List.length_range']))]

/-- **A command gives back its audience**, if that is kept while its handler is at work. -/
theorem kept_of_left (ht : (subscribeAll listeners s.enter.2).2.Kept t) :
    s.Kept (((subscribeAll listeners s.enter.2).1.foldl cancel t).leave s.enter.1) := by
  obtain ⟨gone, haudiences, hgone⟩ := ht.audiences
  obtain ⟨hentered, -, hnextAudience, hnextSubscription⟩ := ht
  rw [subscribeAll_enter hs] at *
  dsimp only [enter] at *
  have hcancelled : ((List.range' s.nextSubscription listeners.length).foldl cancel t).entered =
      s.nextAudience :: s.entered := by
    rw [foldl_cancel]
    exact hentered
  rw [leave_head hcancelled, foldl_cancel]
  refine ⟨rfl, ⟨⟨s.nextAudience, []⟩ :: gone, ?_, fun a ha => ?_⟩, ?_, ?_⟩
  · -- only the audience of the command has subscriptions that are cancelled
    have hold : s.audiences.map (Audience.without (List.range' s.nextSubscription
        listeners.length)) = s.audiences := by
      refine (List.map_congr_left fun a ha => ?_).trans (List.map_id _)
      refine Audience.without_eq_self fun l hl hid => ?_
      exact Nat.not_lt.mpr (List.mem_range'_1.mp hid).1 (hs.subscriptions a ha l hl)
    have hlater : gone.map (Audience.without (List.range' s.nextSubscription
        listeners.length)) = gone := by
      refine (List.map_congr_left fun a ha => ?_).trans (List.map_id _)
      refine Audience.without_eq_self fun l hl => ?_
      rw [(hgone a ha).2.2] at hl
      exact absurd hl List.not_mem_nil
    have hown : ((List.range' s.nextSubscription listeners.length).zip listeners).filter (fun l =>
        !(List.range' s.nextSubscription listeners.length).contains l.1) = [] := by
      refine List.filter_eq_nil_iff.mpr fun l hl => ?_
      simpa using List.mem_range'_1.mp (List.of_mem_zip hl).1
    dsimp only
    rw [haudiences, List.map_append, List.map_append, hold, hlater, List.map_singleton,
      Audience.without, hown, List.append_assoc, List.singleton_append]
  · rcases List.mem_cons.mp ha with rfl | ha
    · exact ⟨Nat.le_refl _, hnextAudience, rfl⟩
    · exact ⟨Nat.le_of_succ_le (hgone a ha).1, (hgone a ha).2⟩
  · exact Nat.le_of_succ_le hnextAudience
  · exact Nat.le_trans (Nat.le_add_right _ _) hnextSubscription

end Engine

end RpkiAuthority
