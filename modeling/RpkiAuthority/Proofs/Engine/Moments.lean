import RpkiAuthority.Proofs.Engine.Steps

/-!
# Moments of a process

A process that runs among others takes its steps at certain **moments**, in whatever world it finds
then (`Process.EndsAmid`). Nothing is assumed about what others do to the world between two of them.
A process that is alone is the case where the world after one moment is the world before the next
(`World.runAlone_iff`).

Of the moments by themselves one can tell how much a counter of the metrics grew in the steps of a
process: by as many as were to be counted (`Process.EndsAmid.growth_eq`). If the process was alone
the counter has grown by just that in the end (`World.counter_of_follow`).
-/

namespace RpkiAuthority

variable {X : Interface} {S α β : Type} {outside : Outside X S}

/-- A step that was taken, with the world before and after it. -/
structure Moment (X : Interface) (S : Type) where
  before : World S
  step : TakenStep X
  after : World S

namespace Moment

/-- What was counted in a moment. -/
def counted? (m : Moment X S) : Option Measurement :=
  match m.step.query with
  | .measure measurement => some measurement
  | _ => none

/-- Whether a step was taken by the engine itself, and not answered by what is outside of it. -/
def isOwn (m : Moment X S) : Bool :=
  match m.step.query with
  | .outside _ => false
  | _ => true

/-- How much a counter grew in the steps that the engine took itself. -/
def growth (counter : CommandMetrics → Nat) : List (Moment X S) → Int
  | [] => 0
  | m :: later =>
    (if m.isOwn then (counter m.after.metrics : Int) - counter m.before.metrics else 0) +
      growth counter later

end Moment

namespace Process

/-- **A process ends amid others**: its steps were taken in these moments. Whatever happened to the
world between one moment and the next was up to others. -/
inductive EndsAmid (outside : Outside X S) : Process X α → List (Moment X S) → α → Prop
  | done (a : α) : EndsAmid outside (.done a) [] a
  | ask {q : SharedQuery X} {next : (sharedInterface X).Reply q → Process X α} {w w' : World S}
      {r : (sharedInterface X).Reply q} {later : List (Moment X S)} {a : α}
      (taken : World.step outside q w = some (r, w')) (rest : EndsAmid outside (next r) later a) :
      EndsAmid outside (.ask q next) (⟨w, ⟨q, r⟩, w'⟩ :: later) a

namespace EndsAmid

variable {moments earlier later : List (Moment X S)}

/-- The steps by themselves. -/
theorem ends {p : Process X α} {a : α} (h : EndsAmid outside p moments a) :
    Ends p (moments.map Moment.step) a := by
  induction h with
  | done a => exact .done a
  | ask taken rest ih => exact .ask ih

theorem of_pure {a b : α} (h : EndsAmid outside (pure a : Process X α) moments b) :
    moments = [] ∧ b = a := by
  cases h
  exact ⟨rfl, rfl⟩

theorem bind {p : Process X α} {f : α → Process X β} {a : α} {b : β}
    (hp : EndsAmid outside p earlier a) (hf : EndsAmid outside (f a) later b) :
    EndsAmid outside (p >>= f) (earlier ++ later) b := by
  induction hp with
  | done a => exact hf
  | ask taken rest ih => exact .ask taken (ih hf)

/-- Nothing but the steps matters, if each was taken in the world of its moment. -/
theorem of_ends {p : Process X α} {a : α} (h : Ends p (moments.map Moment.step) a)
    (htaken : ∀ m ∈ moments,
      World.step outside m.step.query m.before = some (m.step.reply, m.after)) :
    EndsAmid outside p moments a := by
  induction moments generalizing p with
  | nil =>
    cases h
    exact .done a
  | cons m later ih =>
    obtain ⟨before, ⟨q, r⟩, after⟩ := m
    cases h with
    | ask rest =>
      exact .ask (htaken _ List.mem_cons_self)
        (ih rest fun m hm => htaken m (List.mem_cons_of_mem _ hm))

/-- Each step was taken in the world of its moment. -/
theorem taken {p : Process X α} {a : α} (h : EndsAmid outside p moments a) :
    ∀ m ∈ moments, World.step outside m.step.query m.before = some (m.step.reply, m.after) := by
  induction h with
  | done a => exact fun m hm => absurd hm List.not_mem_nil
  | ask taken rest ih =>
    intro m hm
    rcases List.mem_cons.mp hm with rfl | hm
    · exact taken
    · exact ih m hm

/-- What is done in sequence ends in sequence. -/
theorem of_bind {p : Process X α} {f : α → Process X β} {b : β}
    (h : EndsAmid outside (p >>= f) moments b) :
    ∃ earlier later a, moments = earlier ++ later ∧ EndsAmid outside p earlier a ∧
      EndsAmid outside (f a) later b := by
  have htaken := h.taken
  obtain ⟨_, _, a, hsplit, hp, hf⟩ := h.ends.of_bind
  obtain ⟨earlier, later, rfl, rfl, rfl⟩ := List.map_eq_append_iff.mp hsplit
  exact ⟨earlier, later, a, rfl, .of_ends hp fun m hm => htaken m (List.mem_append_left _ hm),
    .of_ends hf fun m hm => htaken m (List.mem_append_right _ hm)⟩

/-- One step comes first. -/
theorem of_step_bind {q : SharedQuery X} {f : (sharedInterface X).Reply q → Process X α} {a : α}
    (h : EndsAmid outside (step q >>= f) moments a) :
    ∃ w r w' later, moments = ⟨w, ⟨q, r⟩, w'⟩ :: later ∧
      World.step outside q w = some (r, w') ∧ EndsAmid outside (f r) later a := by
  cases h with
  | ask taken rest => exact ⟨_, _, _, _, rfl, taken, rest⟩

/-- A process counts nothing if it takes no step to do so. -/
theorem counted_eq_nil {p : Process X α} {a : α} (h : EndsAmid outside p moments a)
    (hp : Only (fun q => ∀ measurement, q ≠ .measure measurement) p) :
    moments.filterMap Moment.counted? = [] := by
  refine List.filterMap_eq_nil_iff.mpr fun m hm => ?_
  have hquery := h.ends.only hp m.step (List.mem_map_of_mem hm)
  unfold Moment.counted?
  split
  · next measurement hmeasure => exact absurd hmeasure (hquery measurement)
  · rfl

end EndsAmid

end Process

namespace World

/-- **The moments follow one another**, and nothing happens in between. -/
inductive Follow : World S → List (Moment X S) → World S → Prop
  | nil (w : World S) : Follow w [] w
  | cons {m : Moment X S} {later : List (Moment X S)} {w' : World S}
      (rest : Follow m.after later w') :
      Follow m.before (m :: later) w'

/-- There is a world between the moments before and those after. -/
theorem Follow.of_append {w w' : World S} {earlier later : List (Moment X S)}
    (h : Follow w (earlier ++ later) w') : ∃ u, Follow w earlier u ∧ Follow u later w' := by
  induction earlier generalizing w with
  | nil => exact ⟨w, .nil w, h⟩
  | cons m earlier ih =>
    cases h with
    | cons rest =>
      obtain ⟨u, hearlier, hlater⟩ := ih rest
      exact ⟨u, .cons hearlier, hlater⟩

/-- **A process that is alone** is one whose moments follow one another. -/
theorem runAlone_iff {p : Process X α} {w w' : World S} {a : α} :
    runAlone outside p w = some (a, w') ↔
      ∃ moments, p.EndsAmid outside moments a ∧ Follow w moments w' := by
  induction p generalizing w with
  | done b =>
    constructor
    · intro h
      obtain ⟨rfl, rfl⟩ := Prod.mk.inj (Option.some.inj h)
      exact ⟨[], .done _, .nil _⟩
    · rintro ⟨moments, hends, hfollow⟩
      cases hends
      cases hfollow
      rfl
  | ask q next ih =>
    have hask : runAlone outside (Dialogue.ask q next) w =
        (step outside q w).bind fun p => runAlone outside (next p.1) p.2 := rfl
    rw [hask, Option.bind_eq_some_iff]
    constructor
    · rintro ⟨⟨r, u⟩, hstep, hrest⟩
      obtain ⟨later, hends, hfollow⟩ := (ih r).mp hrest
      exact ⟨_ :: later, .ask hstep hends, .cons (m := ⟨w, ⟨q, r⟩, u⟩) hfollow⟩
    · rintro ⟨moments, hends, hfollow⟩
      cases hends with
      | ask taken rest =>
        cases hfollow with
        | cons hfollow => exact ⟨_, taken, (ih _).mpr ⟨_, rest, hfollow⟩⟩

end World

/-! ### What is counted -/

namespace CommandMetrics

/-- The metrics with something else counted, at a time that stands still. -/
def count (m : CommandMetrics) : Measurement → CommandMetrics
  | .duration type => m.recordDuration type 0
  | .retry => m.recordRetry
  | .outcome o => m.recordOutcome o

/-- **What a counter counts** adds one to it, and nothing else does. -/
def Counts (counter : CommandMetrics → Nat) (what : Measurement) : Prop :=
  ∀ m measurement, counter (m.count measurement) = counter m + if measurement = what then 1 else 0

/-- Repetitions are counted apart from everything else. -/
theorem counts_retries : Counts retries .retry := by
  intro m measurement
  cases measurement with
  | retry => rfl
  | duration type => rfl
  | outcome o => cases o <;> rfl

/-- Every outcome is counted apart from the others. -/
theorem counts_outcomes (o : CommandOutcome) : Counts (fun m => m.outcomes o) (.outcome o) := by
  intro m measurement
  cases measurement with
  | retry | duration type => cases o <;> rfl
  | outcome o' => cases o' <;> cases o <;> rfl

end CommandMetrics

/-- The outside has nothing counted. -/
def Outside.CountsNothing (outside : Outside X S) : Prop :=
  ∀ q w, (outside q w).2.metrics = w.metrics

section Counters

variable {w w' : World S} {counter : CommandMetrics → Nat} {p : Process X α}
  {moments : List (Moment X S)} {a : α}

/-- A step of the engine counts what it is for. -/
theorem World.metrics_of_step {m : Moment X S} (hown : m.isOwn = true)
    (h : World.step outside m.step.query m.before = some (m.step.reply, m.after)) :
    m.after.metrics = m.counted?.toList.foldl CommandMetrics.count m.before.metrics := by
  obtain ⟨w, ⟨q, r⟩, w'⟩ := m
  dsimp only at h
  cases q with
  | measure m =>
    obtain ⟨-, rfl⟩ := Prod.mk.inj (Option.some.inj h)
    cases m <;> rfl
  | acquire tx id mode =>
    rw [step] at h
    split at h <;> obtain ⟨-, rfl⟩ := Prod.mk.inj (Option.some.inj h) <;> rfl
  | commit tx deletions records =>
    cases hcommit : w.commit tx deletions records with
    | error err =>
      obtain ⟨-, rfl⟩ := Prod.mk.inj (Option.some.inj ((step_commit_error hcommit).symm.trans h))
      rfl
    | ok u =>
      obtain ⟨-, rfl⟩ := Prod.mk.inj (Option.some.inj ((step_commit_ok hcommit).symm.trans h))
      rw [commit] at hcommit
      split at hcommit
      · cases hcommit
      · obtain rfl := Except.ok.inj hcommit
        rfl
  | outside q => exact Bool.noConfusion hown
  | stuck => cases h
  | _ =>
    obtain ⟨-, rfl⟩ := Prod.mk.inj (Option.some.inj h)
    rfl

/-- In one step a counter grows by one if this is what the step is to count. -/
theorem Moment.counter_of_own {what : Measurement} (hcounts : CommandMetrics.Counts counter what)
    {m : Moment X S} (hown : m.isOwn = true)
    (h : World.step outside m.step.query m.before = some (m.step.reply, m.after)) :
    counter m.after.metrics = counter m.before.metrics + m.counted?.toList.count what := by
  rw [World.metrics_of_step hown h]
  cases m.counted? with
  | none => rfl
  | some measurement =>
    show counter (CommandMetrics.count _ _) = _ + [measurement].count what
    rw [hcounts, List.count_singleton]
    simp only [beq_iff_eq]

/-- What is outside of the engine is not asked to count. -/
theorem Moment.counted?_of_not_own {m : Moment X S} (h : m.isOwn = false) : m.counted? = none := by
  obtain ⟨w, ⟨q, r⟩, w'⟩ := m
  cases q with
  | outside q => rfl
  | _ => exact Bool.noConfusion h

/-- **A counter grows by what is to be counted** in the steps of a process. -/
theorem Process.EndsAmid.growth_eq {what : Measurement}
    (hcounts : CommandMetrics.Counts counter what) (h : p.EndsAmid outside moments a) :
    Moment.growth counter moments = ((moments.filterMap Moment.counted?).count what : Nat) := by
  have htaken := h.taken
  clear h
  induction moments with
  | nil => rfl
  | cons m later ih =>
    have hlater := ih fun m hm => htaken m (List.mem_cons_of_mem _ hm)
    have hsplit : ((m :: later).filterMap Moment.counted?).count what =
        m.counted?.toList.count what + (later.filterMap Moment.counted?).count what := by
      rw [List.filterMap_cons]
      cases m.counted? with
      | none => exact (Nat.zero_add _).symm
      | some measurement =>
        show ([measurement] ++ later.filterMap Moment.counted?).count what = _
        exact List.count_append
    rw [Moment.growth, hlater, hsplit]
    cases hown : m.isOwn with
    | false =>
      rw [Moment.counted?_of_not_own hown]
      simp
    | true =>
      rw [Moment.counter_of_own hcounts hown (htaken m List.mem_cons_self), if_pos rfl]
      omega

/-- **The counters of a process that is alone** have grown by what they grew in its steps. -/
theorem World.counter_of_follow (counter : CommandMetrics → Nat) (hout : outside.CountsNothing)
    (h : p.EndsAmid outside moments a) (hfollow : Follow w moments w') :
    (counter w'.metrics : Int) = counter w.metrics + Moment.growth counter moments := by
  induction h generalizing w with
  | done a =>
    cases hfollow
    exact (Int.add_zero _).symm
  | @ask q next v v' r later a taken rest ih =>
    cases hfollow with
    | cons hfollow =>
      rw [ih hfollow, Moment.growth]
      cases hown : Moment.isOwn ⟨v, ⟨q, r⟩, v'⟩ with
      | true =>
        rw [if_pos rfl]
        omega
      | false =>
        have hsame : v'.metrics = v.metrics := by
          cases q with
          | outside q =>
            have hmetrics := hout q v
            rwa [show outside q v = (r, v') from Option.some.inj taken] at hmetrics
          | _ => exact Bool.noConfusion hown
        simp [hsame]

end Counters

end RpkiAuthority
