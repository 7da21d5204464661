import Mathlib.Data.List.Induction
import Mathlib.Logic.Function.Basic
import RpkiAuthority.Proofs.Concurrent.Execution
import RpkiAuthority.Proofs.Engine.Decided
import RpkiAuthority.Proofs.History.Timeless

/-!
# Commands executed side by side

Any number of commands are executed at the same time (`CommandPool`). Their processes take their
steps in any order, and between any two steps everything but what is committed, the locks and the
numbers of transactions can change: the clock, the numbers drawn by chance, the announcements, the
log, and what is outside of the engine. A command that waits for a lock is one whose turn has not
come. One that has its turn while others hold the lock gives up waiting.

The commands whose changes were committed, in the order of their commits, explain all of it
(`CommandPool.serializable`): executed alone, one after the other in this order, they have the same
statuses, and leave the same authorities and, but for the times, the same audit log
(`World.executeEach`). It does not matter what the clock shows and the rest of the world is like
when they are executed, if the same numbers are drawn for new authorities. All that has to be
assumed is that no authority is created again after it was deleted.
-/

namespace RpkiAuthority

variable {ι : Type} [DecidableEq ι] {X : Interface} {S : Type}

/-! ### Pools and serial runs -/

/-- Commands that are executed at the same time. -/
structure CommandPool (ι : Type) (X : Interface) (S : Type) where
  world : World S
  /-- What is left to do for each command. -/
  processes : ι → Process X (Except CommandError CommandStatus)
  /-- The commands whose changes were committed, the first one first. -/
  effective : List ι

/-- What happens next. -/
inductive Turn (ι : Type) (S : Type) where
  /-- A command takes its next step. -/
  | step (i : ι)
  /-- Something happens that is not up to any of the commands. -/
  | change (around : World S)

/-- The world with all that commands do not share through the store and the audit log as in another
one. -/
def World.amid (w around : World S) : World S :=
  { around with
    store := { w.store with nextId := around.store.nextId }
    audit := w.audit }

namespace CommandPool

/-- Lets the next thing happen. A command that has ended takes no steps. -/
def perform (outside : Outside X S) (p : CommandPool ι X S) : Turn ι S → CommandPool ι X S
  | .step i =>
    match p.processes i with
    | .done _ => p
    | .ask q next =>
      match World.step outside q p.world with
      | none => p
      | some (r, w) =>
        { world := w
          processes := Function.update p.processes i (next r)
          effective :=
            if SharedQuery.writes p.world q then p.effective ++ [i] else p.effective }
  | .change around => { p with world := p.world.amid around }

/-- Executes commands with their steps in any order. -/
def executing (outside : Outside X S) (e : Engine X) (levels : Nat) (commands : ι → Command)
    (w : World S) (turns : List (Turn ι S)) : CommandPool ι X S :=
  turns.foldl (perform outside) ⟨w, fun i => e.execute levels (commands i), []⟩

/-- What a command has ended with. -/
def result? (p : CommandPool ι X S) (i : ι) : Option (Except CommandError CommandStatus) :=
  match p.processes i with
  | .done r => some r
  | .ask _ _ => none

end CommandPool

/-- How a command took effect: who it was, the number that was drawn for a new authority, and the
status. -/
structure TakenEffect (ι : Type) where
  who : ι
  number : Nat
  status : CommandStatus

namespace World

/-- Executes commands alone, one after the other, each of them amid a world of its own. -/
def executeEach (outside : Outside X S) (e : Engine X) (levels : Nat) :
    List (World S × Command) → World S → Option (List (Except CommandError CommandStatus) × World S)
  | [], w => some ([], w)
  | (around, c) :: rest, w =>
    (execute outside e levels c (w.amid around)).bind fun p =>
      (executeEach outside e levels rest p.2).map fun q => (p.1 :: q.1, q.2)

/-- **The same is committed**, but for the times in the audit log. -/
structure SameButTimes (w w' : World S) : Prop where
  aggregates : w'.store.aggregates = w.store.aggregates
  audit : w'.audit.timeless = w.audit.timeless

theorem SameButTimes.get? {w w' : World S} (h : SameButTimes w w') (id : AggregateId) :
    w'.store.get? id = w.store.get? id := by
  rw [Store.get?, h.aggregates, Store.get?]

theorem SameButTimes.of_committed {u w w' : World S} (h : SameButTimes u w')
    (hsame : w.committed = u.committed) : SameButTimes w w' := by
  obtain ⟨haggregates, haudit⟩ := Prod.mk.inj hsame
  exact ⟨h.aggregates.trans haggregates.symm, by rw [haudit]; exact h.audit⟩

variable {outside : Outside X S} {e : Engine X} {levels : Nat}

/-- One more command. -/
theorem executeEach_concat {commands : List (World S × Command)} {w u v around : World S}
    {results : List (Except CommandError CommandStatus)} {c : Command}
    {r : Except CommandError CommandStatus}
    (h : executeEach outside e levels commands w = some (results, u))
    (hc : execute outside e levels c (u.amid around) = some (r, v)) :
    executeEach outside e levels (commands ++ [(around, c)]) w = some (results ++ [r], v) := by
  induction commands generalizing w results with
  | nil =>
    obtain ⟨rfl, rfl⟩ := Prod.mk.inj (Option.some.inj h)
    rw [List.nil_append, executeEach, hc]
    rfl
  | cons first rest ih =>
    obtain ⟨around', c'⟩ := first
    rw [executeEach, Option.bind_eq_some_iff] at h
    obtain ⟨p, hp, hrest⟩ := h
    obtain ⟨⟨results', u'⟩, hresults, heq⟩ := Option.map_eq_some_iff.mp hrest
    obtain ⟨rfl, rfl⟩ := Prod.mk.inj heq
    rw [List.cons_append, executeEach, hp, Option.bind_some, ih hresults]
    rfl

end World

/-! ### Taking effect alone -/

theorem Uuid.ofNat_bits (uuid : Uuid) : ofNat uuid.bits = uuid := by
  obtain ⟨bits, hlt⟩ := uuid
  simp only [ofNat, Nat.mod_eq_of_lt hlt]

namespace Command

variable {c : Command} {u v w : World S} {status : CommandStatus}

/-- Of the numbers that are drawn only the one for a new authority matters. -/
theorem effect_drawn {uuid : Uuid} (h : Uuid.ofNat w.nextUuid = uuid)
    (found : Option CertificateAuthority) : c.effect (c.drawn w) found = c.effect uuid found := by
  rw [drawn]
  cases hd : c.details with
  | createCertificateAuthority name => rw [← h]
  | _ => cases found <;> rw [effect, effect, hd]

/-- **What took effect among others takes effect alone**, whatever the clock shows, where the same
number is drawn. -/
theorem Outcome.alone (h : c.Outcome u (.ok status) v) (heffect : status.hasEffect = true)
    (outside : Outside X S) (settings : Settings) (levels : Nat) :
    ∃ number, ∀ ⦃w around : World S⦄, u.SameButTimes w → w.store.locks = OrdMap.empty →
      around.nextUuid = number →
      ∃ w', World.execute outside (Engine.standard settings) (levels + 2) c (w.amid around) =
          some (.ok status, w') ∧ v.SameButTimes w' ∧ w'.store.locks = OrdMap.empty := by
  cases h with
  | idle => exact Bool.noConfusion heffect
  | @effective uuid change _ fresh allowed effect aggregates audit =>
    refine ⟨uuid.bits, fun w around hsame hfree hnumber => ?_⟩
    have hget : (w.amid around).store.get? c.authority.id = u.store.get? c.authority.id :=
      hsame.get? c.authority.id
    have hruling : c.ruling (w.amid around) = .ok change := by
      have hfresh : c.stale (w.amid around) = none :=
        stale_eq_none_of_timeless hget hsame.audit fresh
      have hnumber : Uuid.ofNat (w.amid around).nextUuid = uuid :=
        (congrArg Uuid.ofNat hnumber).trans uuid.ofNat_bits
      rw [ruling, hfresh, allowed, hget]
      exact (congrArg Effect.outcome (effect_drawn hnumber _)).trans effect
    obtain ⟨w', hw', hleaves, -, hlocks⟩ :=
      Engine.execute_eq_verdict outside settings levels c (w := w.amid around) hfree
    rw [hruling, leaves, hget] at hleaves
    obtain ⟨haggregates, haudit⟩ := Prod.mk.inj hleaves
    refine ⟨w', hw'.trans ?_, ⟨?_, ?_⟩, hlocks⟩
    · rw [verdict, hruling, hget]
      rfl
    · rw [haggregates, aggregates]
      exact congrArg (c.writes _ change) hsame.aggregates
    · rw [haudit, audit, timeless_recordsIn, timeless_recordsIn]
      exact congrArg (c.recordsIn _ change .epoch) hsame.audit

/-- **What was deleted is gone**, and stays so. -/
theorem Outcome.gone (h : c.Outcome u (.ok status) v) (heffect : status.hasEffect = true)
    {commands : List Command} (hlasting : NotRecreated (commands ++ [c]))
    (hgone : ∀ id, Deleted id commands → u.store.get? id = none) {id : AggregateId}
    (hdeleted : Deleted id (commands ++ [c])) : v.store.get? id = none := by
  have hdeleted := deleted_concat.mp hdeleted
  by_cases hid : id = c.authority.id
  · subst hid
    cases h with
    | idle => exact Bool.noConfusion heffect
    | effective _ _ effect aggregates =>
      cases hfound : u.store.get? c.authority.id with
      | none =>
        -- all that the command can do is to create the authority, so nobody has deleted it
        rw [hfound] at effect
        obtain ⟨name, hd, -⟩ := effect_none_eq_ok effect
        have htype : c.type = .createCertificateAuthority := by rw [type, hd]; rfl
        rcases hdeleted with hbefore | ⟨hnow, -⟩
        · exact absurd htype (hlasting.type_ne_create hbefore)
        · exact absurd (htype.symm.trans hnow) (by decide)
      | some ca =>
        rcases hdeleted with hbefore | ⟨hnow, -⟩
        · exact absurd ((hgone _ hbefore).symm.trans hfound).symm (Option.some_ne_none ca)
        · rw [hfound] at effect
          have hnone := (effect_some_eq_ok effect).authority_eq_none_iff.mpr hnow
          rw [Store.get?, aggregates, writes, hnone]
          exact OrdMap.find?_erase_self _ _
  · have hbefore : Deleted id commands := hdeleted.resolve_right fun hnow => hid hnow.2.symm
    exact (h.sameAuthority hid).get?.trans (hgone id hbefore)

end Command

/-! ### What explains a pool -/

namespace CommandPool

variable {outside : Outside X S} {settings : Settings} {levels : Nat} {commands : ι → Command}
  {start : World S} {p : CommandPool ι X S} {log : List (TakenEffect ι)}

/-- **A log leads to a world**: its commands, executed alone in this order, have the statuses of the
log and commit what is committed in that world, whatever the clock shows, if the numbers of the log
are drawn. -/
def LeadsTo (outside : Outside X S) (settings : Settings) (levels : Nat) (commands : ι → Command)
    (start : World S) (log : List (TakenEffect ι)) (w : World S) : Prop :=
  ∀ alone : List (World S × Command),
    alone.map (fun t => (t.1.nextUuid, t.2)) = log.map (fun e => (e.number, commands e.who)) →
    ∃ u, World.executeEach outside (Engine.standard settings) (levels + 2) alone start =
        some (log.map fun e => .ok e.status, u) ∧
      w.SameButTimes u ∧ u.store.locks = OrdMap.empty

omit [DecidableEq ι] in
/-- A command that takes effect leads on. -/
theorem LeadsTo.concat {w v : World S} (h : LeadsTo outside settings levels commands start log w)
    (i : ι) {status : CommandStatus} (houtcome : (commands i).Outcome w (.ok status) v)
    (heffect : status.hasEffect = true) :
    ∃ number, LeadsTo outside settings levels commands start (log ++ [⟨i, number, status⟩]) v := by
  obtain ⟨number, halone⟩ := houtcome.alone heffect outside settings levels
  refine ⟨number, fun alone hcommands => ?_⟩
  rw [List.map_append, List.map_eq_append_iff] at hcommands
  obtain ⟨before, last, rfl, hbefore, hlast⟩ := hcommands
  obtain ⟨⟨around, c⟩, rfl, hpair⟩ := List.map_eq_singleton_iff.mp hlast
  obtain ⟨hnumber, rfl⟩ := Prod.mk.inj hpair
  obtain ⟨u, hu, hsame, hlocks⟩ := h before hbefore
  obtain ⟨u', hu', hend⟩ := halone hsame hlocks hnumber
  refine ⟨u', ?_, hend⟩
  rw [List.map_append]
  exact World.executeEach_concat hu hu'

/-- **A log explains a pool**: the log of the commands that took effect leads to what is committed;
these commands have only their status left to tell, and all others serve their commands. -/
structure Explains (outside : Outside X S) (settings : Settings) (levels : Nat)
    (commands : ι → Command) (start : World S) (log : List (TakenEffect ι))
    (p : CommandPool ι X S) : Prop where
  order : p.effective = log.map TakenEffect.who
  nodup : p.effective.Nodup
  serial : LeadsTo outside settings levels commands start log p.world
  gone : ∀ id, Deleted id (p.effective.map commands) → p.world.store.get? id = none
  pending : ∀ i, i ∉ p.effective →
    Process.Serves outside (commands i) (p.processes i) p.world (p.effective.map commands)
  told : ∀ e ∈ log, e.status.hasEffect = true ∧
    Process.Quiet (fun r => r = .ok e.status) (p.processes e.who)

omit [DecidableEq ι] in
/-- Before anything happens. -/
theorem explains_start (hfree : start.store.locks = OrdMap.empty) :
    Explains outside settings levels commands start []
      ⟨start, fun i => (Engine.standard settings).execute (levels + 2) (commands i), []⟩ where
  order := rfl
  nodup := List.nodup_nil
  serial turns hturns := by
    obtain rfl := List.map_eq_nil_iff.mp hturns
    exact ⟨start, rfl, ⟨rfl, rfl⟩, hfree⟩
  gone id h := by
    obtain ⟨c, hc, -⟩ := h
    exact absurd hc List.not_mem_nil
  pending i _ := Engine.execute_serves settings levels (commands i)
  told e he := absurd he List.not_mem_nil

omit [DecidableEq ι] in
/-- **Where nothing is committed** the same log explains what comes next. -/
theorem Explains.same (h : Explains outside settings levels commands start log p) {w : World S}
    {processes : ι → Process X (Except CommandError CommandStatus)}
    (hsame : w.committed = p.world.committed)
    (hpending : ∀ i, i ∉ p.effective → Process.Serves outside (commands i) (processes i) w
      (p.effective.map commands))
    (htold : ∀ e ∈ log, Process.Quiet (fun r => r = .ok e.status) (processes e.who)) :
    Explains outside settings levels commands start log ⟨w, processes, p.effective⟩ where
  order := h.order
  nodup := h.nodup
  serial turns hturns := by
    obtain ⟨u, hu, hbooks, hlocks⟩ := h.serial turns hturns
    exact ⟨u, hu, hbooks.of_committed hsame, hlocks⟩
  gone id hdeleted :=
    (World.SameAuthority.of_committed hsame id).get?.trans (h.gone id hdeleted)
  pending := hpending
  told e he := ⟨(h.told e he).1, htold e he⟩

/-- **A step that commits nothing.** -/
theorem Explains.quiet_step (h : Explains outside settings levels commands start log p) {i : ι}
    {q : SharedQuery X} {next : (sharedInterface X).Reply q → Process X _}
    (hprocess : p.processes i = .ask q next) {r : (sharedInterface X).Reply q} {w : World S}
    (hsame : w.committed = p.world.committed)
    (hserves : i ∉ p.effective →
      Process.Serves outside (commands i) (next r) w (p.effective.map commands)) :
    Explains outside settings levels commands start log
      ⟨w, Function.update p.processes i (next r), p.effective⟩ := by
  refine h.same hsame (fun j hj => ?_) fun e he => ?_
  · by_cases hji : j = i
    · subst hji
      rw [Function.update_self]
      exact hserves hj
    · rw [Function.update_of_ne hji]
      exact (h.pending j hj).meanwhile (.idle hsame)
  · by_cases hei : e.who = i
    · have hquiet := (h.told e he).2
      rw [hei, hprocess] at hquiet
      rw [hei, Function.update_self]
      exact hquiet.2 r
    · rw [Function.update_of_ne hei]
      exact (h.told e he).2

/-- **A step that commits a change** is the next entry of the log. -/
theorem Explains.effect_step (h : Explains outside settings levels commands start log p) {i : ι}
    {q : SharedQuery X} {next : (sharedInterface X).Reply q → Process X _}
    {r : (sharedInterface X).Reply q} {w : World S} {status : CommandStatus}
    (hi : i ∉ p.effective) (heffect : status.hasEffect = true)
    (houtcome : (commands i).Outcome p.world (.ok status) w)
    (hquiet : Process.Quiet (fun r => r = .ok status) (next r))
    (hlasting : NotRecreated (p.effective.map commands ++ [commands i])) :
    ∃ number, Explains outside settings levels commands start (log ++ [⟨i, number, status⟩])
      ⟨w, Function.update p.processes i (next r), p.effective ++ [i]⟩ := by
  obtain ⟨number, hserial⟩ := h.serial.concat i houtcome heffect
  have hmap : (p.effective ++ [i]).map commands = p.effective.map commands ++ [commands i] :=
    List.map_append
  have hnodup : (p.effective ++ [i]).Nodup :=
    List.nodup_append.mpr ⟨h.nodup, by simp, fun a ha b hb hab =>
      hi (List.mem_singleton.mp hb ▸ hab ▸ ha)⟩
  have hgone : ∀ id, Deleted id ((p.effective ++ [i]).map commands) → w.store.get? id = none := by
    rw [hmap]
    exact fun id => houtcome.gone heffect hlasting h.gone
  have hpending : ∀ j, j ∉ p.effective ++ [i] → Process.Serves outside (commands j)
      (Function.update p.processes i (next r) j) w ((p.effective ++ [i]).map commands) := by
    intro j hj
    rw [List.mem_append, not_or, List.mem_singleton] at hj
    rw [Function.update_of_ne hj.2, hmap]
    exact (h.pending j hj.1).meanwhile (.effect (.refl _ _) houtcome heffect rfl)
  have htold : ∀ e ∈ log ++ [⟨i, number, status⟩], e.status.hasEffect = true ∧
      Process.Quiet (fun r => r = .ok e.status) (Function.update p.processes i (next r) e.who) := by
    intro e he
    rcases List.mem_append.mp he with he | he
    · have hei : e.who ≠ i := fun hei => hi (h.order ▸ hei ▸ List.mem_map_of_mem he)
      rw [Function.update_of_ne hei]
      exact h.told e he
    · obtain rfl := List.mem_singleton.mp he
      rw [Function.update_self]
      exact ⟨heffect, hquiet⟩
  refine ⟨number, ?_, hnodup, hserial, hgone, hpending, htold⟩
  rw [h.order, List.map_append]
  rfl

/-- What a step makes of a pool. -/
theorem perform_step {i : ι} {q : SharedQuery X} {next : (sharedInterface X).Reply q → Process X _}
    (hprocess : p.processes i = .ask q next) {r : (sharedInterface X).Reply q} {w : World S}
    (hstep : World.step outside q p.world = some (r, w)) :
    p.perform outside (.step i) = ⟨w, Function.update p.processes i (next r),
      if SharedQuery.writes p.world q then p.effective ++ [i] else p.effective⟩ := by
  rw [perform, hprocess]
  dsimp only
  rw [hstep]

/-- **Whatever happens next**, the pool can be explained. -/
theorem Explains.perform (h : Explains outside settings levels commands start log p)
    (turn : Turn ι S) (hlasting : NotRecreated ((p.perform outside turn).effective.map commands)) :
    ∃ log, Explains outside settings levels commands start log (p.perform outside turn) := by
  cases turn with
  | change around =>
    refine ⟨log, h.same rfl (fun i hi => ?_) fun e he => (h.told e he).2⟩
    exact (h.pending i hi).meanwhile (.idle rfl)
  | step i =>
    cases hprocess : p.processes i with
    | done r =>
      rw [CommandPool.perform, hprocess]
      exact ⟨log, h⟩
    | ask q next =>
      cases hstep : World.step outside q p.world with
      | none =>
        rw [CommandPool.perform, hprocess]
        dsimp only
        rw [hstep]
        exact ⟨log, h⟩
      | some taken =>
        obtain ⟨r, w⟩ := taken
        rw [perform_step hprocess hstep] at hlasting ⊢
        by_cases hi : i ∈ p.effective
        · -- the command has taken effect before, and only tells its status
          obtain ⟨e, he, rfl⟩ := List.mem_map.mp (h.order ▸ hi)
          have hquiet := (h.told e he).2
          rw [hprocess] at hquiet
          rw [SharedQuery.writes_of_isQuiet hquiet.1]
          exact ⟨log, h.quiet_step hprocess (SharedQuery.committed_of_isQuiet hquiet.1 hstep)
            fun hnot => absurd hi hnot⟩
        · have hserves := h.pending i hi
          rw [hprocess] at hserves
          rcases hserves p.world _ r w (.refl _ _) h.gone hstep with
            ⟨hwrites, hsame, hrest⟩ | ⟨hwrites, heffect⟩
          · rw [hwrites]
            exact ⟨log, h.quiet_step hprocess hsame fun _ => hrest⟩
          · rw [hwrites, if_pos rfl, List.map_append] at hlasting
            obtain ⟨status, heffective, houtcome, hquiet⟩ := heffect hlasting
            obtain ⟨number, hnext⟩ := h.effect_step hi heffective houtcome hquiet hlasting
            rw [hwrites]
            exact ⟨_, hnext⟩

/-- What took effect earlier took effect. -/
theorem effective_perform (outside : Outside X S) (p : CommandPool ι X S) (turn : Turn ι S) :
    p.effective <+: (p.perform outside turn).effective := by
  cases turn with
  | change around => exact List.prefix_rfl
  | step i =>
    rw [CommandPool.perform]
    split
    · exact List.prefix_rfl
    · split
      · exact List.prefix_rfl
      · dsimp only
        split
        · exact List.prefix_append _ _
        · exact List.prefix_rfl

/-- One more turn. -/
theorem executing_concat (e : Engine X) (turns : List (Turn ι S)) (turn : Turn ι S) :
    executing outside e levels commands start (turns ++ [turn]) =
      (executing outside e levels commands start turns).perform outside turn := by
  rw [executing, List.foldl_append]
  rfl

/-- **Whatever happens**, the pool can be explained. -/
theorem explains_executing (hfree : start.store.locks = OrdMap.empty) (turns : List (Turn ι S))
    (hlasting : NotRecreated ((executing outside (Engine.standard settings) (levels + 2) commands
      start turns).effective.map commands)) :
    ∃ log, Explains outside settings levels commands start log
      (executing outside (Engine.standard settings) (levels + 2) commands start turns) := by
  induction turns using List.reverseRecOn with
  | nil => exact ⟨[], explains_start hfree⟩
  | append_singleton turns turn ih =>
    rw [executing_concat] at hlasting ⊢
    obtain ⟨more, hmore⟩ := effective_perform outside
      (executing outside (Engine.standard settings) (levels + 2) commands start turns) turn
    have hbefore : NotRecreated ((executing outside (Engine.standard settings) (levels + 2) commands
        start turns).effective.map commands) := by
      rw [← hmore, List.map_append] at hlasting
      exact hlasting.of_append
    obtain ⟨log, hlog⟩ := ih hbefore
    exact hlog.perform turn hlasting

/-- **Commands executed side by side are as good as executed one after the other.** Whatever the
order of their steps, and whatever happens in between that is not up to them: as long as no
authority is created again after it was deleted, the commands that took effect, executed alone in
the order of their commits, have the same statuses and lead to the same authorities and, but for the
times, to the same audit log. This is so whatever the rest of the world is like then, with the
numbers drawn that were drawn. All other commands end without effect. -/
theorem serializable (outside : Outside X S) (settings : Settings) (levels : Nat)
    (commands : ι → Command) {start : World S} (hfree : start.store.locks = OrdMap.empty)
    (turns : List (Turn ι S)) {p : CommandPool ι X S}
    (hp : executing outside (Engine.standard settings) (levels + 2) commands start turns = p)
    (hlasting : NotRecreated (p.effective.map commands)) :
    p.effective.Nodup ∧ ∃ log : List (TakenEffect ι),
      log.map TakenEffect.who = p.effective ∧ (∀ e ∈ log, e.status.hasEffect = true) ∧
      (∀ alone : List (World S × Command),
        alone.map (fun t => (t.1.nextUuid, t.2)) = log.map (fun e => (e.number, commands e.who)) →
        ∃ w, World.executeEach outside (Engine.standard settings) (levels + 2) alone start =
            some (log.map fun e => .ok e.status, w) ∧
          w.store.aggregates = p.world.store.aggregates ∧
          w.audit.timeless = p.world.audit.timeless) ∧
      ∀ i r, p.result? i = some r →
        (∀ e ∈ log, e.who = i → r = .ok e.status) ∧ (i ∉ p.effective → effectOf r = none) := by
  subst hp
  obtain ⟨log, hlog⟩ := explains_executing hfree turns hlasting
  refine ⟨hlog.nodup, log, hlog.order.symm, fun e he => (hlog.told e he).1, fun alone halone => ?_,
    fun i r hr => ?_⟩
  · obtain ⟨w, hw, hsame, -⟩ := hlog.serial alone halone
    exact ⟨w, hw, hsame.aggregates, hsame.audit⟩
  · have hdone : (executing outside (Engine.standard settings) (levels + 2) commands start
        turns).processes i = .done r := by
      rw [result?] at hr
      split at hr
      · next hprocess => rw [hprocess, Option.some.inj hr]
      · exact absurd hr.symm (Option.some_ne_none r)
    constructor
    · rintro e he rfl
      have htold := (hlog.told e he).2
      rw [hdone] at htold
      exact htold
    · intro hi
      have hpending := hlog.pending i hi
      rw [hdone] at hpending
      exact hpending

/-- An authority is created, and two users subscribe to its alerts. -/
def contending : Fin 3 → Command
  | 0 => ⟨⟨1, 0⟩, .system, .createCertificateAuthority "authority"⟩
  | 1 => ⟨⟨1, 0⟩, .user "alice", .subscribeToRoaAlert "a@example.org" (OrdSet.ofMembers [.unknown])
      .daily⟩
  | 2 => ⟨⟨1, 1⟩, .user "bob", .subscribeToRoaAlert "b@example.org" (OrdSet.ofMembers [.unknown])
      .daily⟩

/-- Both users look at the authority before one of them has taken the lock. The other one gets it
next, is refused at the commit, and tries again. -/
def contendingTurns : List (Turn (Fin 3) Unit) :=
  (List.replicate 9 (0 : Fin 3) ++ [1, 2, 1, 2] ++ List.replicate 6 1 ++ List.replicate 14 2).map
    .step

theorem serializable_contending :
    ∃ (alone : List (World Unit × Command)) (statuses : List CommandStatus) (w : World Unit),
      alone.map Prod.snd = [contending 0, contending 1, contending 2] ∧
      World.executeEach Outside.none (Engine.standard .standard) 2 alone
        (World.initial .standard ()) = some (statuses.map .ok, w) ∧
      (∀ status ∈ statuses, status.hasEffect = true) ∧
      (w.store.get? 1).map CertificateAuthority.version = some 2 := by
  have hcompute : (executing Outside.none (Engine.standard .standard) 2 contending
      (World.initial .standard ()) contendingTurns).effective = [0, 1, 2] ∧
      ((executing Outside.none (Engine.standard .standard) 2 contending
        (World.initial .standard ()) contendingTurns).world.store.get? 1).map
          CertificateAuthority.version = some 2 := by
    decide +kernel
  obtain ⟨-, log, hwho, heffect, hserial, -⟩ :=
    serializable Outside.none .standard 0 contending rfl contendingTurns rfl
      (by rw [hcompute.1]; decide)
  rw [hcompute.1] at hwho
  obtain ⟨alone, halone⟩ : ∃ alone : List (World Unit × Command),
      alone.map (fun t => (t.1.nextUuid, t.2)) =
        log.map fun e => (e.number, contending e.who) := by
    refine ⟨log.map fun e =>
      ({ World.initial .standard () with nextUuid := e.number }, contending e.who), ?_⟩
    rw [List.map_map]
    rfl
  have hcommands : alone.map Prod.snd = (log.map TakenEffect.who).map contending := by
    have hsecond := congrArg (List.map Prod.snd) halone
    rw [List.map_map, List.map_map] at hsecond
    rw [List.map_map]
    exact hsecond
  obtain ⟨w, hw, haggregates, -⟩ := hserial alone halone
  refine ⟨alone, log.map TakenEffect.status, w, ?_, ?_, ?_, ?_⟩
  · rw [hcommands, hwho]
    rfl
  · rw [List.map_map]
    exact hw
  · intro status hstatus
    obtain ⟨e, he, rfl⟩ := List.mem_map.mp hstatus
    exact heffect e he
  · rw [Store.get?, haggregates]
    exact hcompute.2

end CommandPool

end RpkiAuthority
