import RpkiAuthority.Proofs.Engine.Caught
import RpkiAuthority.Proofs.Engine.Moments
import RpkiAuthority.Proofs.History.Current

/-!
# How often a command is attempted

The execution of a command is a number of attempts with a pause between any two of them, and an end
in which the result is given. How many attempts there are depends on their results only
(`Engine.attempts_iff`): the first that does not fail with a transient error is the last, and so is
the one that reaches the limit. In the first case the result is the one of the last attempt. In the
second the command is given up, with an error about the version and the records that are found then.
The counter of repetitions grows by one for each of them, and the one of the outcome by one
(`Engine.Counted`).

All this is said of single executions among any number of others (`Engine.execute_attempts`). For an
execution that is alone it tells the counters of the metrics in the end
(`Engine.Counted.of_follow`).
-/

namespace RpkiAuthority

variable {X : Interface} {S : Type} {outside : Outside X S}

/-! ### Attempts and pauses -/

namespace Engine

open Process

/-- What is counted is counted outside of the attempts. -/
abbrev CountsNothing (q : SharedQuery X) : Prop := ∀ measurement, q ≠ .measure measurement

theorem countsNothing_of_isCommandStep {q : SharedQuery X} (h : q.IsCommandStep) :
    CountsNothing q := by
  rintro measurement rfl
  exact h

theorem only_logDropped (context : LogContext) (counts : List Nat) :
    Only (X := X) CountsNothing (logDropped context counts) := by
  induction counts with
  | nil => trivial
  | cons count rest ih => exact (only_step fun _ => by simp).bind fun _ => ih

/-- **An attempt counts nothing.** -/
theorem only_attempt (e : Engine X) (levels : Nat) (c : Command) :
    Only CountsNothing (e.attempt levels c) := by
  refine (only_step fun _ => by simp).bind fun tx => Only.bind ?_ fun p => ?_
  · exact ((only_nesting e levels).1 c _).mono fun q => countsNothing_of_isCommandStep
  · refine (only_logDropped _ _).bind fun _ => ?_
    cases p.1 with
    | error err => exact (only_step fun _ => by simp).bind fun _ => trivial
    | ok status =>
      refine (only_step fun _ => by simp).bind fun committed =>
        (only_step fun _ => by simp).bind fun _ => ?_
      cases committed <;> trivial

/-- Whether an attempt may be repeated after this result. -/
def isRepeatable : Except CommandError CommandStatus → Bool
  | .ok _ => false
  | .error err => err.isTransient

/-- What is done after an attempt that is repeated, when `n` attempts were repeated before. -/
def pause (e : Engine X) (c : Command) (n : Nat) :
    Except CommandError CommandStatus → Process X Unit
  | .ok _ => return
  | .error err => do
    let draw ← Process.step (.draw e.settings.commands.retryJitter)
    Process.step (.measure .retry)
    Process.step (.log ⟨.info, contextOf c,
      retryMessage c err (n + 1) (e.settings.commands.backoff n draw)⟩)

/-- The result that is given after the last of `n` attempts. -/
def giveResult (c : Command) (n : Nat) :
    Except CommandError CommandStatus → Process X (Except CommandError CommandStatus)
  | .ok status => return .ok status
  | .error err =>
    if err.isTransient then do
      Process.step (.log ⟨.error, contextOf c, givenUpMessage c err n⟩)
      return .error (← givenUp c)
    else do
      Process.step (.log (failureLine c err))
      return .error err

/-- The end of an execution, after the last of `n` attempts. -/
def concludeWith (c : Command) (n : Nat) (last : Except CommandError CommandStatus) :
    Process X (Except CommandError CommandStatus) := do
  let result ← giveResult c n last
  Process.step (.measure (.duration c.type))
  Process.step (.measure (.outcome (outcomeOf result)))
  return result

/-- **Attempts with pauses in between**, when `n` attempts were repeated before, and the results of
all of them. -/
inductive Tries (outside : Outside X S) (e : Engine X) (levels : Nat) (c : Command) :
    Nat → List (Moment X S) → List (Except CommandError CommandStatus) → Prop
  | last {n : Nat} {moments : List (Moment X S)} {r : Except CommandError CommandStatus}
      (attempt : EndsAmid outside (e.attempt levels c) moments r) :
      Tries outside e levels c n moments [r]
  | again {n : Nat} {moments between later : List (Moment X S)}
      {r : Except CommandError CommandStatus}
      {results : List (Except CommandError CommandStatus)}
      (attempt : EndsAmid outside (e.attempt levels c) moments r)
      (repeatable : isRepeatable r = true)
      (pause : EndsAmid outside (e.pause c n r) between ())
      (rest : Tries outside e levels c (n + 1) later results) :
      Tries outside e levels c n (moments ++ (between ++ later)) (r :: results)

/-- **Where the attempts end**: there are `limit` of them, or fewer if the first one that is not to
be repeated comes before that. -/
def EndsAt (limit : Nat) (results : List (Except CommandError CommandStatus)) : Prop :=
  results.length = min (results.findIdx (fun r => !isRepeatable r) + 1) limit

variable {e : Engine X} {levels : Nat} {c : Command} {limit : Nat}
  {results : List (Except CommandError CommandStatus)} {r : Except CommandError CommandStatus}

theorem Tries.ne_nil {n : Nat} {moments : List (Moment X S)}
    (h : Tries outside e levels c n moments results) : results ≠ [] := by
  cases h <;> exact List.cons_ne_nil _ _

/-- One attempt is enough if it is not to be repeated, or if there may be no other. -/
theorem endsAt_singleton : EndsAt (limit + 1) [r] ↔ isRepeatable r = false ∨ limit = 0 := by
  unfold EndsAt
  rw [List.findIdx_singleton, List.length_singleton]
  cases isRepeatable r with
  | false => simp
  | true =>
    simp only [Bool.not_true, Bool.false_eq_true, if_false, Bool.true_eq_false, false_or]
    omega

/-- After an attempt there are others just if it may be repeated. -/
theorem endsAt_cons (hne : results ≠ []) :
    EndsAt (limit + 1) (r :: results) ↔ isRepeatable r = true ∧ EndsAt limit results := by
  have hpos : 0 < results.length := List.length_pos_iff.mpr hne
  unfold EndsAt
  rw [List.findIdx_cons, List.length_cons]
  cases isRepeatable r with
  | false =>
    simp only [Bool.not_false, cond_true, Bool.false_eq_true, false_and, iff_false]
    omega
  | true =>
    simp only [Bool.not_true, cond_false, true_and]
    omega

/-- The last result is the one of the attempts that come later. -/
theorem getLast?_cons_of_ne_nil (hne : results ≠ []) :
    (r :: results).getLast? = results.getLast? := by
  cases results with
  | nil => exact absurd rfl hne
  | cons first rest => exact List.getLast?_cons_cons

theorem attempts_zero (e : Engine X) (levels : Nat) (c : Command) (n : Nat) :
    e.attempts levels c 0 n = e.attempt levels c >>= giveResult c (n + 1) := by
  rw [attempts]
  refine bind_congr fun r => ?_
  cases r <;> rfl

theorem attempts_succ (e : Engine X) (levels : Nat) (c : Command) (more n : Nat) :
    e.attempts levels c (more + 1) n = e.attempt levels c >>= fun r =>
      if isRepeatable r = true then e.pause c n r >>= fun _ => e.attempts levels c more (n + 1)
      else giveResult c (n + 1) r := by
  rw [attempts]
  refine bind_congr fun r => ?_
  cases r with
  | ok status => rfl
  | error err =>
    by_cases htransient : err.isTransient = true
    · rw [if_pos (show isRepeatable (.error err) = true from htransient)]
      exact if_pos htransient
    · rw [if_neg (show ¬isRepeatable (.error err) = true from htransient), giveResult,
        if_neg htransient]
      exact if_neg htransient

/-- Attempts that end are some that are tried. The induction is on how many there may be after the
first. -/
theorem exists_tries_of_attempts {more n : Nat} {moments : List (Moment X S)}
    (h : EndsAmid outside (e.attempts levels c more n) moments r) :
    ∃ tries results last ending, moments = tries ++ ending ∧
      Tries outside e levels c n tries results ∧ EndsAt (more + 1) results ∧
      results.getLast? = some last ∧
      EndsAmid outside (giveResult c (n + results.length) last) ending r := by
  induction more generalizing n moments with
  | zero =>
    rw [attempts_zero] at h
    obtain ⟨tries, ending, last, rfl, hattempt, hend⟩ := h.of_bind
    exact ⟨tries, [last], last, ending, rfl, .last hattempt, endsAt_singleton.mpr (.inr rfl), rfl,
      hend⟩
  | succ more ih =>
    rw [attempts_succ] at h
    obtain ⟨tries, ending, last, rfl, hattempt, hend⟩ := h.of_bind
    by_cases hlast : isRepeatable last = true
    · rw [if_pos hlast] at hend
      obtain ⟨between, later, _, rfl, hpause, hrest⟩ := hend.of_bind
      obtain ⟨tries', results, last', ending, rfl, htries, hends, hlast', hend⟩ := ih hrest
      refine ⟨tries ++ (between ++ tries'), last :: results, last', ending, ?_,
        .again hattempt hlast hpause htries, (endsAt_cons htries.ne_nil).mpr ⟨hlast, hends⟩, ?_, ?_⟩
      · simp only [List.append_assoc]
      · rw [getLast?_cons_of_ne_nil htries.ne_nil, hlast']
      · rwa [List.length_cons, Nat.add_comm results.length, ← Nat.add_assoc]
    · rw [if_neg hlast] at hend
      exact ⟨tries, [last], last, ending, rfl, .last hattempt,
        endsAt_singleton.mpr (.inl (Bool.eq_false_iff.mpr hlast)), rfl, hend⟩

/-- What is tried can be the attempts of an execution, if it ends where it should. The induction is
on what is tried. -/
theorem Tries.attempts {n : Nat} {tries : List (Moment X S)}
    (htries : Tries outside e levels c n tries results) {more : Nat}
    (hends : EndsAt (more + 1) results) {last : Except CommandError CommandStatus}
    (hlast : results.getLast? = some last) {ending : List (Moment X S)}
    (hend : EndsAmid outside (giveResult c (n + results.length) last) ending r) :
    EndsAmid outside (e.attempts levels c more n) (tries ++ ending) r := by
  induction htries generalizing more with
  | @last n moments last' attempt =>
    obtain rfl := Option.some.inj hlast
    cases more with
    | zero =>
      rw [attempts_zero]
      exact attempt.bind hend
    | succ more =>
      rw [attempts_succ]
      refine attempt.bind ?_
      have hnot := (endsAt_singleton.mp hends).resolve_right (Nat.succ_ne_zero more)
      rwa [if_neg (Bool.eq_false_iff.mp hnot)]
  | @again n moments between later first results attempt hrepeatable hpause rest ih =>
    obtain ⟨-, hends⟩ := (endsAt_cons rest.ne_nil).mp hends
    rw [getLast?_cons_of_ne_nil rest.ne_nil] at hlast
    rw [List.length_cons, Nat.add_comm results.length, ← Nat.add_assoc] at hend
    cases more with
    | zero =>
      -- there may be one attempt only
      exact absurd (List.length_eq_zero_iff.mp (hends.trans (Nat.min_zero _))) rest.ne_nil
    | succ more =>
      rw [attempts_succ, List.append_assoc, List.append_assoc]
      refine attempt.bind ?_
      rw [if_pos hrepeatable]
      exact hpause.bind (ih hends hlast hend)

/-- **How attempts end**, at most `more` of them after the first. -/
theorem attempts_iff {more n : Nat} {moments : List (Moment X S)} :
    EndsAmid outside (e.attempts levels c more n) moments r ↔
      ∃ tries results last ending, moments = tries ++ ending ∧
        Tries outside e levels c n tries results ∧ EndsAt (more + 1) results ∧
        results.getLast? = some last ∧
        EndsAmid outside (giveResult c (n + results.length) last) ending r := by
  constructor
  · exact exists_tries_of_attempts
  · rintro ⟨tries, results, last, ending, rfl, htries, hends, hlast, hend⟩
    exact htries.attempts hends hlast hend

/-- **An attempt does not fail for want of an effect.** -/
theorem yields_attempt (e : Engine X) (levels : Nat) (c : Command) :
    Yields IsProper (e.attempt levels c) := by
  refine yields_bind fun tx => (yields_nesting e levels c _).bind fun p hp => ?_
  refine yields_bind fun _ => ?_
  obtain ⟨result, state⟩ := p
  cases result with
  | error err => exact yields_bind fun _ => hp
  | ok status =>
    refine yields_bind fun committed => yields_bind fun _ => ?_
    cases committed with
    | ok _ => exact nofun
    | error err => exact nofun

/-! ### The end of an execution -/

theorem execute_eq (e : Engine X) (levels : Nat) (c : Command) :
    e.execute levels c =
      e.attempts levels c (max e.settings.commands.maxAttempts 1 - 1) 0 >>= fun result => do
        Process.step (.measure (.duration c.type))
        Process.step (.measure (.outcome (outcomeOf result)))
        return result := rfl

/-- **An execution is attempts and an end.** -/
theorem execute_iff {moments : List (Moment X S)} :
    EndsAmid outside (e.execute levels c) moments r ↔
      ∃ tries results last ending, moments = tries ++ ending ∧
        Tries outside e levels c 0 tries results ∧
        EndsAt (max e.settings.commands.maxAttempts 1) results ∧ results.getLast? = some last ∧
        EndsAmid outside (concludeWith c results.length last) ending r := by
  have hlimit : max e.settings.commands.maxAttempts 1 - 1 + 1 =
      max e.settings.commands.maxAttempts 1 :=
    Nat.sub_add_cancel (Nat.le_max_right _ _)
  rw [execute_eq]
  constructor
  · intro h
    obtain ⟨earlier, later, result, rfl, hattempts, hlater⟩ := h.of_bind
    obtain ⟨tries, results, last, ending, rfl, htries, hends, hlast, hend⟩ :=
      attempts_iff.mp hattempts
    rw [hlimit] at hends
    rw [Nat.zero_add] at hend
    exact ⟨tries, results, last, ending ++ later, List.append_assoc _ _ _, htries, hends, hlast,
      hend.bind hlater⟩
  · rintro ⟨tries, results, last, ending, rfl, htries, hends, hlast, hend⟩
    obtain ⟨ending, later, result, rfl, hgiven, hlater⟩ := hend.of_bind
    rw [← List.append_assoc]
    refine EndsAmid.bind (attempts_iff.mpr ⟨tries, results, last, ending, rfl, htries, ?_, hlast,
      ?_⟩) hlater
    · rwa [hlimit]
    · rwa [Nat.zero_add]

/-- **A command is given up** with an error about the version and the records that are found after
the last attempt: the records about its authority that are not marked as deleted and that have a
later version than the command. -/
def GivenUp (c : Command) (ending : List (Moment X S)) (r : Except CommandError CommandStatus) :
    Prop :=
  ∃ looked ∈ ending, ∃ listed ∈ ending, looked.step.query = .read c.authority.id ∧
    listed.step.query = .recordsSince c.authority ∧
    r = .error (.concurrentModification c.authority.id
      ((looked.before.store.version? c.authority.id).getD c.authority.version) c.authority.version
      (listed.before.audit.records.filter fun record =>
        record.authority.id = c.authority.id ∧ record.deletedAt = none ∧
          c.authority.version < record.authority.version))

/-- What is counted for an execution with a number of attempts. -/
def counts (c : Command) (attempts : Nat) (r : Except CommandError CommandStatus) :
    List Measurement :=
  List.replicate (attempts - 1) .retry ++ [.duration c.type, .outcome (outcomeOf r)]

variable {n : Nat} {last : Except CommandError CommandStatus} {ending : List (Moment X S)}

/-- The result after the last attempt. Giving it counts nothing. -/
theorem giveResult_ends (h : EndsAmid outside (giveResult c n last) ending r) :
    ending.filterMap Moment.counted? = [] ∧
      if isRepeatable last = true then GivenUp c ending r else r = last := by
  cases last with
  | ok status =>
    obtain ⟨rfl, rfl⟩ := h.of_pure
    exact ⟨rfl, rfl⟩
  | error err =>
    rw [giveResult] at h
    by_cases htransient : err.isTransient = true
    · rw [if_pos htransient] at h
      rw [if_pos (show isRepeatable (.error err) = true from htransient)]
      obtain ⟨w₁, _, w₂, _, rfl, -, h⟩ := h.of_step_bind
      obtain ⟨earlier, later, given, rfl, hgiven, h⟩ := h.of_bind
      obtain ⟨rfl, rfl⟩ := h.of_pure
      -- what is found is what is committed at that moment
      obtain ⟨w₃, found, w₄, _, rfl, hread, hgiven⟩ := hgiven.of_step_bind
      obtain ⟨w₅, records, w₆, _, rfl, hlist, hgiven⟩ := hgiven.of_step_bind
      obtain ⟨rfl, rfl⟩ := hgiven.of_pure
      obtain ⟨rfl, rfl⟩ := Prod.mk.inj (Option.some.inj hread)
      obtain ⟨rfl, rfl⟩ := Prod.mk.inj (Option.some.inj hlist)
      refine ⟨rfl, _, List.mem_cons_of_mem _ List.mem_cons_self, _,
        List.mem_cons_of_mem _ (List.mem_cons_of_mem _ List.mem_cons_self), rfl, rfl, ?_⟩
      rw [Store.version?, AuditLog.since_eq_filter]
      cases w₃.store.get? c.authority.id <;> rfl
    · rw [if_neg htransient] at h
      rw [if_neg (show ¬isRepeatable (.error err) = true from htransient)]
      obtain ⟨w₁, _, w₂, _, rfl, -, h⟩ := h.of_step_bind
      obtain ⟨rfl, rfl⟩ := h.of_pure
      exact ⟨rfl, rfl⟩

theorem GivenUp.mono {ending' : List (Moment X S)} (h : GivenUp c ending r)
    (hsub : ending ⊆ ending') : GivenUp c ending' r := by
  obtain ⟨looked, hlooked, listed, hlisted, hrest⟩ := h
  exact ⟨looked, hsub hlooked, listed, hsub hlisted, hrest⟩

/-- **At the end** the time and the outcome are counted. -/
theorem concludeWith_ends (h : EndsAmid outside (concludeWith c n last) ending r) :
    ending.filterMap Moment.counted? = [.duration c.type, .outcome (outcomeOf r)] ∧
      if isRepeatable last = true then GivenUp c ending r else r = last := by
  obtain ⟨earlier, later, given, rfl, hgiven, h⟩ := h.of_bind
  obtain ⟨hcounted, hresult⟩ := giveResult_ends hgiven
  obtain ⟨w₁, _, w₂, _, rfl, -, h⟩ := h.of_step_bind
  obtain ⟨w₃, _, w₄, _, rfl, -, h⟩ := h.of_step_bind
  obtain ⟨rfl, rfl⟩ := h.of_pure
  refine ⟨?_, ?_⟩
  · rw [List.filterMap_append, hcounted]
    rfl
  · by_cases hlast : isRepeatable last = true
    · rw [if_pos hlast] at hresult ⊢
      exact hresult.mono (List.subset_append_left _ _)
    · rwa [if_neg hlast] at hresult ⊢

/-- What succeeds in the end was not given up. -/
theorem last_of_ok {status : CommandStatus}
    (h : if isRepeatable last = true then GivenUp c ending (.ok status) else .ok status = last) :
    .ok status = last := by
  split at h
  · obtain ⟨looked, -, listed, -, -, -, herror⟩ := h
    exact absurd herror nofun
  · exact h

/-- The end of an execution that is left alone is reached, whatever world it is in. -/
theorem concludeWith_runs (outside : Outside X S) (c : Command) (n : Nat)
    (last : Except CommandError CommandStatus) (u : World S) :
    ∃ r u', World.runAlone outside (concludeWith c n last) u = some (r, u') := by
  rw [concludeWith, World.runAlone_bind]
  suffices h : ∃ r v, World.runAlone outside (giveResult c n last) u = some (r, v) by
    obtain ⟨r, v, h⟩ := h
    rw [h]
    exact ⟨_, _, rfl⟩
  cases last with
  | ok status => exact ⟨_, _, rfl⟩
  | error err =>
    rw [giveResult]
    split <;> exact ⟨_, _, rfl⟩

/-- **A repetition is counted** after every attempt but the last. -/
theorem Tries.counted {moments : List (Moment X S)}
    (h : Tries outside e levels c n moments results) :
    moments.filterMap Moment.counted? = List.replicate (results.length - 1) .retry := by
  induction h with
  | last attempt => exact attempt.counted_eq_nil (only_attempt e levels c)
  | @again n moments between later r results attempt repeatable pause rest ih =>
    have hpause : between.filterMap Moment.counted? = [.retry] := by
      cases r with
      | ok status => exact Bool.noConfusion repeatable
      | error err =>
        obtain ⟨_, _, _, _, rfl, -, hrest⟩ := pause.of_step_bind
        obtain ⟨_, _, _, _, rfl, -, hrest⟩ := hrest.of_step_bind
        obtain ⟨_, _, _, _, rfl, -, hrest⟩ := hrest.of_step_bind
        obtain ⟨rfl, -⟩ := EndsAmid.of_pure hrest
        rfl
    have hlength : results.length = results.length - 1 + 1 :=
      (Nat.succ_pred_eq_of_pos (List.length_pos_iff.mpr rest.ne_nil)).symm
    rw [List.filterMap_append, List.filterMap_append, ih, hpause,
      attempt.counted_eq_nil (only_attempt e levels c), List.nil_append, List.singleton_append,
      ← List.replicate_succ, ← hlength, List.length_cons, Nat.add_sub_cancel]

/-- What is given in the end is proper, and nothing transient. -/
theorem proper_of_concludeWith (hproper : IsProper last)
    (h : if isRepeatable last = true then GivenUp c ending r else r = last) :
    IsProper r ∧ ∀ err, r ≠ .error (.storage err) := by
  split at h
  · obtain ⟨looked, -, listed, -, -, -, rfl⟩ := h
    exact ⟨nofun, nofun⟩
  · next hlast =>
    obtain rfl := h
    refine ⟨hproper, ?_⟩
    rintro err rfl
    exact hlast rfl

/-- The last result is one of an attempt. -/
theorem Tries.proper {moments : List (Moment X S)} (h : Tries outside e levels c n moments results)
    (hlast : results.getLast? = some last) : IsProper last := by
  induction h with
  | last attempt =>
    obtain rfl := Option.some.inj hlast
    exact attempt.ends.yields (yields_attempt e levels c)
  | again attempt repeatable pause rest ih =>
    rw [getLast?_cons_of_ne_nil rest.ne_nil] at hlast
    exact ih hlast

/-- The last attempt comes after the others. -/
theorem Tries.exists_last {moments : List (Moment X S)}
    (h : Tries outside e levels c n moments results) (hlast : results.getLast? = some last) :
    ∃ earlier later, moments = earlier ++ later ∧
      EndsAmid outside (e.attempt levels c) later last := by
  induction h with
  | last attempt =>
    obtain rfl := Option.some.inj hlast
    exact ⟨[], _, rfl, attempt⟩
  | @again n moments between later r results attempt repeatable pause rest ih =>
    rw [getLast?_cons_of_ne_nil rest.ne_nil] at hlast
    obtain ⟨earlier, later', rfl, hattempt⟩ := ih hlast
    exact ⟨moments ++ (between ++ earlier), later', by simp only [List.append_assoc], hattempt⟩

/-- **An execution that does not fail ends with an attempt that does not**, and commits nothing
after it. -/
theorem exists_attempt_of_execute {status : CommandStatus} {w w' : World S}
    (h : World.execute outside e levels c w = some (.ok status, w')) :
    ∃ u v, World.runAlone outside (e.attempt levels c) u = some (.ok status, v) ∧
      w'.committed = v.committed := by
  obtain ⟨moments, hends, hfollow⟩ := World.runAlone_iff.mp h
  obtain ⟨tries, results, last, ending, rfl, htries, -, hlast, hend⟩ := execute_iff.mp hends
  obtain rfl := last_of_ok (concludeWith_ends hend).2
  obtain ⟨earlier, later, rfl, hattempt⟩ := htries.exists_last hlast
  obtain ⟨v, htried, hafter⟩ := hfollow.of_append
  obtain ⟨u, -, hlater⟩ := htried.of_append
  refine ⟨u, v, World.runAlone_iff.mpr ⟨later, hattempt, hlater⟩, ?_⟩
  have hrun := World.runAlone_iff.mpr ⟨ending, hend, hafter⟩
  obtain ⟨-, rfl⟩ := Prod.mk.inj (Option.some.inj hrun)
  rw [committed_measure, committed_measure]

/-- **What an execution adds to the counters** in its own steps, with a number of attempts and a
result: all repetitions to one of them, one to that of the outcome, and nothing to those of other
outcomes. -/
structure Counted (moments : List (Moment X S)) (attempts : Nat)
    (r : Except CommandError CommandStatus) : Prop where
  retries : Moment.growth CommandMetrics.retries moments = (attempts - 1 : Nat)
  outcomes : ∀ o, Moment.growth (fun m => m.outcomes o) moments = if o = outcomeOf r then 1 else 0

/-- What is counted is added to the counters. -/
theorem counted_of_counts {p : Process X (Except CommandError CommandStatus)}
    {moments : List (Moment X S)} {attempts : Nat} (h : EndsAmid outside p moments r)
    (hcounted : moments.filterMap Moment.counted? = counts c attempts r) :
    Counted moments attempts r := by
  constructor
  · rw [h.growth_eq CommandMetrics.counts_retries, hcounted, counts, List.count_append,
      List.count_replicate_self]
    rfl
  · intro o
    have hretries : (List.replicate (attempts - 1) Measurement.retry).count (.outcome o) = 0 :=
      List.count_eq_zero.mpr fun hmem => by simpa using List.eq_of_mem_replicate hmem
    rw [h.growth_eq (CommandMetrics.counts_outcomes o), hcounted, counts, List.count_append,
      hretries, Nat.zero_add, List.count_cons_of_ne (by simp), List.count_singleton]
    by_cases ho : o = outcomeOf r
    · simp [ho]
    · simp [ho, Ne.symm ho]

/-- **The counters after an execution that is alone**: there is one repetition more for every
attempt but the last, and one outcome. -/
theorem Counted.of_follow {moments : List (Moment X S)} {attempts : Nat} {w w' : World S}
    {p : Process X (Except CommandError CommandStatus)} (h : Counted moments attempts r)
    (hends : EndsAmid outside p moments r) (hout : outside.CountsNothing)
    (hfollow : World.Follow w moments w') :
    w'.metrics.retries = w.metrics.retries + (attempts - 1) ∧
      ∀ o, w'.metrics.outcomes o = w.metrics.outcomes o + if o = outcomeOf r then 1 else 0 := by
  refine ⟨?_, fun o => ?_⟩
  · have hgrown := World.counter_of_follow CommandMetrics.retries hout hends hfollow
    rw [h.retries] at hgrown
    omega
  · have hgrown := World.counter_of_follow (fun m => m.outcomes o) hout hends hfollow
    rw [h.outcomes o] at hgrown
    by_cases ho : o = outcomeOf r
    · rw [if_pos ho] at hgrown ⊢
      omega
    · rw [if_neg ho] at hgrown ⊢
      omega

/-- **How often a command is attempted, and what comes of it.** An execution, with any handlers and
listeners and whatever others do meanwhile, is attempts with pauses in between and an end. The last
attempt is the first that is not to be repeated, or the one that reaches the limit. In the first
case its result is the result; in the second the command is given up. The repetitions, the time and
one outcome are counted and nothing else, and so the counters grow in the steps of the execution. If
it was alone the counters have grown by just that in the end. The result is never that there was
nothing to do, or that others stood in the way. And after such attempts an execution that is left
alone comes to its end. -/
theorem execute_attempts (outside : Outside X S) (e : Engine X) (levels : Nat) (c : Command) :
    (∀ moments r, EndsAmid outside (e.execute levels c) moments r →
      ∃ tries results last ending, moments = tries ++ ending ∧
        Tries outside e levels c 0 tries results ∧
        EndsAt (max e.settings.commands.maxAttempts 1) results ∧ results.getLast? = some last ∧
        (if isRepeatable last = true then GivenUp c ending r else r = last) ∧
        moments.filterMap Moment.counted? = counts c results.length r ∧
        Counted moments results.length r ∧
        (outside.CountsNothing → ∀ w w', World.Follow w moments w' →
          w'.metrics.retries = w.metrics.retries + (results.length - 1) ∧
          ∀ o, w'.metrics.outcomes o =
            w.metrics.outcomes o + if o = outcomeOf r then 1 else 0) ∧
        IsProper r ∧ ∀ err, r ≠ .error (.storage err)) ∧
    ∀ tries results u, Tries outside e levels c 0 tries results →
      EndsAt (max e.settings.commands.maxAttempts 1) results →
      ∃ ending r u', World.Follow u ending u' ∧
        EndsAmid outside (e.execute levels c) (tries ++ ending) r := by
  refine ⟨fun moments r h => ?_, ?_⟩
  · obtain ⟨tries, results, last, ending, rfl, htries, hends, hlast, hend⟩ := execute_iff.mp h
    obtain ⟨hcounted, hresult⟩ := concludeWith_ends hend
    have hcounts : (tries ++ ending).filterMap Moment.counted? = counts c results.length r := by
      rw [List.filterMap_append, htries.counted, hcounted, counts]
    have hgrown := counted_of_counts h hcounts
    exact ⟨tries, results, last, ending, rfl, htries, hends, hlast, hresult, hcounts, hgrown,
      fun hout _ _ => hgrown.of_follow h hout,
      proper_of_concludeWith (htries.proper hlast) hresult⟩
  · intro tries results u htries hends
    obtain ⟨last, hlast⟩ := Option.isSome_iff_exists.mp (List.getLast?_isSome.mpr htries.ne_nil)
    obtain ⟨r, u', hrun⟩ := concludeWith_runs outside c results.length last u
    obtain ⟨ending, hend, hfollow⟩ := World.runAlone_iff.mp hrun
    exact ⟨ending, r, u', hfollow,
      execute_iff.mpr ⟨tries, results, last, ending, rfl, htries, hends, hlast, hend⟩⟩

/-- A handler that waits in vain for a lock when it is run for the first time. -/
def hesitating : Engine scriptInterface where
  settings := .standard
  handlers _ := Script.handler 0 [⟨.fail (.storage (.lockTimeout 1)), none, some 1⟩,
    ⟨.markUpdated, none, none⟩]
  listeners := []

/-- The first attempt is repeated, and the second one changes the authority. -/
theorem execute_attempts_hesitating :
    ∃ moments w', World.Follow withAuthority moments w' ∧
      EndsAmid Script.answer (hesitating.execute 1 around) moments (.ok ⟨true, ⟨1, 1⟩⟩) ∧
      ∃ tries results ending, moments = tries ++ ending ∧
        Tries Script.answer hesitating 1 around 0 tries results ∧ results.length = 2 ∧
        results.getLast? = some (.ok ⟨true, ⟨1, 1⟩⟩) ∧
        moments.filterMap Moment.counted? =
          [.retry, .duration .updateIncomingCertificate, .outcome .success] ∧
        Counted moments 2 (.ok ⟨true, ⟨1, 1⟩⟩) ∧
        w'.metrics.retries = 1 ∧ w'.metrics.outcomes .success = 1 := by
  have hcompute : ((World.execute Script.answer hesitating 1 around withAuthority).map fun p =>
      (p.1.toOption, p.2.metrics.retries)) = some (some ⟨true, ⟨1, 1⟩⟩, 1) := by
    decide +kernel
  obtain ⟨⟨r, w'⟩, hrun, hfound⟩ := Option.map_eq_some_iff.mp hcompute
  obtain ⟨hstatus, hretries⟩ := Prod.mk.inj hfound
  obtain ⟨moments, hends, hfollow⟩ := World.runAlone_iff.mp hrun
  obtain ⟨tries, results, last, ending, rfl, htries, -, hlast, hresult, hcounted, hgrown, halone,
    -⟩ := (execute_attempts Script.answer hesitating 1 around).1 moments r hends
  obtain ⟨hsum, houtcomes⟩ := halone (fun q w => by cases q <;> rfl) withAuthority w' hfollow
  cases r with
  | error err => exact absurd hstatus nofun
  | ok status =>
    obtain rfl := Option.some.inj hstatus
    have hlength : results.length = 2 := by
      rw [hretries, show withAuthority.metrics.retries = 0 from rfl] at hsum
      omega
    obtain rfl := last_of_ok hresult
    rw [hlength] at hgrown
    refine ⟨_, w', hfollow, hends, tries, results, ending, rfl, htries, hlength, hlast, ?_, hgrown,
      hretries, houtcomes .success⟩
    rw [hcounted, hlength]
    rfl

end Engine

end RpkiAuthority
