import Mathlib.Data.List.Induction
import Mathlib.Data.List.Infix
import Mathlib.Logic.Function.Basic
import RpkiAuthority.Proofs.Concurrent.Disciplined
import RpkiAuthority.Proofs.Concurrent.Serial
import RpkiAuthority.Proofs.Engine.Transient

/-!
# Engines that share a store

Any number of commands are executed at the same time, by any number of engines, on one store
(`StorePool`). Only the authorities, the locks and the numbers of transactions are shared; all else,
such as the audit log that a command is recorded in, is the engine's own or up to nobody, and can be
anything else at the next step (`World.withStore`).

Each process keeps to its locks, and so each open transaction is spared by all other processes
(`StorePool.Disciplined.perform`). For the commands of the system this means that no commit of
theirs fails, and that their attempts fail for no other passing reason than a lock that was not free
(`StorePool.system_commits`). Nothing is assumed about the store at the start.
-/

namespace RpkiAuthority

variable {ι : Type} [DecidableEq ι] {X : Interface} {S : Type}

/-- A world with the authorities, the locks and the transactions of another one. Numbers of
authorities are given by those who do not run commands. -/
def World.withStore (around : World S) (store : Store CertificateAuthority) : World S :=
  { around with store := { store with nextId := around.store.nextId } }

/-- What a process commits in its next step. -/
def Process.committing? {α : Type} : Process X α →
    Option (Transaction CertificateAuthority × List AggregateId × List PendingRecord)
  | .ask (.commit tx deletions records) _ => some (tx, deletions, records)
  | _ => none

/-- Commands that are executed at the same time on one store. -/
structure StorePool (ι : Type) (X : Interface) (S : Type) where
  world : World S
  /-- What is left to do for each command. -/
  processes : ι → Process X (Except CommandError CommandStatus)
  /-- The steps that each command has taken, with the answers. -/
  steps : ι → List (TakenStep X)

/-- The commit of a command of the system succeeds. -/
theorem Process.Disciplined.commits {outside : Outside X S} {c : Command} {w : World S}
    {opened : Option TxId} {p : Process X (Except CommandError CommandStatus)}
    (h : Disciplined outside c Closed p opened w) (hsystem : c.group = .system)
    {tx : Transaction CertificateAuthority} {deletions : List AggregateId}
    {records : List PendingRecord} (hp : p.committing? = some (tx, deletions, records)) :
    ∃ u, w.commit tx deletions records = .ok u := by
  unfold committing? at hp
  split at hp
  · cases hp
    cases hcommit : w.commit tx deletions records with
    | ok u => exact ⟨u, rfl⟩
    | error e =>
      -- the step would be answered with the error, but it is not a proper one then
      obtain ⟨⟨-, -, hok⟩, -⟩ := h w _ _ (.refl _ _) (World.step_commit_error hcommit)
      exact absurd (hok hsystem) (by simp)
  · exact absurd hp.symm (Option.some_ne_none _)

namespace StorePool

/-- Lets the next thing happen. A command that has ended takes no steps. -/
def perform (outside : Outside X S) (p : StorePool ι X S) : Turn ι S → StorePool ι X S
  | .step i =>
    match p.processes i with
    | .done _ => p
    | .ask q next =>
      match World.step outside q p.world with
      | none => p
      | some (r, w) =>
        { world := w
          processes := Function.update p.processes i (next r)
          steps := Function.update p.steps i (p.steps i ++ [⟨q, r⟩]) }
  | .change around => { p with world := around.withStore p.world.store }

/-- Executes commands, each with an engine of its own, with their steps in any order. -/
def executing (outside : Outside X S) (engines : ι → Engine X) (levels : Nat)
    (commands : ι → Command) (w : World S) (turns : List (Turn ι S)) : StorePool ι X S :=
  turns.foldl (perform outside)
    ⟨w, fun i => (engines i).execute levels (commands i), fun _ => []⟩

variable {outside : Outside X S} {commands : ι → Command} {p : StorePool ι X S}
  {opened : ι → Option TxId}

/-! ### Steps taken -/

/-- **What is known of a step** that the process of a command has taken: a transaction has looked at
nothing when it starts, and a command of the system is refused nothing but a lock. -/
structure Expected (c : Command) (a : TakenStep X) : Prop where
  start : ∀ tx : Transaction CertificateAuthority, a = ⟨.start, tx⟩ → tx.entries = OrdMap.empty
  failure : c.group = .system → ∀ e, a.failure? = some e →
    e = .lockTimeout c.authority.id

theorem expected_of_proper {c : Command} {w w' : World S} {n : Option TxId} {q : SharedQuery X}
    {r : (sharedInterface X).Reply q} (h : q.Proper c w n r)
    (taken : World.step outside q w = some (r, w')) : Expected c ⟨q, r⟩ where
  start := by
    rintro tx hstart
    cases hstart
    obtain ⟨rfl, -⟩ := Prod.mk.inj (Option.some.inj taken)
    rfl
  failure := by
    intro hsystem e hfailure
    cases q with
    | acquire tx id mode =>
      cases r with
      | ok _ => exact absurd hfailure.symm (Option.some_ne_none e)
      | error e' =>
        obtain rfl := Option.some.inj hfailure
        exact h.2 e' rfl
    | commit tx deletions records =>
      obtain rfl := h.2.2 hsystem
      exact absurd hfailure.symm (Option.some_ne_none e)
    | _ => exact absurd hfailure.symm (Option.some_ne_none e)

/-! ### Discipline among processes -/

/-- **Processes keep to their locks**: each has a transaction of its own open, if any, is
disciplined, and has taken only steps as expected. -/
structure Disciplined (outside : Outside X S) (commands : ι → Command) (p : StorePool ι X S)
    (opened : ι → Option TxId) : Prop where
  begun : ∀ i, ∀ n ∈ opened i, n < p.world.store.nextTx
  own : ∀ i j n, n ∈ opened i → n ∈ opened j → i = j
  process : ∀ i, Process.Disciplined outside (commands i) Process.Closed (p.processes i) (opened i)
    p.world
  expected : ∀ i, ∀ a ∈ p.steps i, Expected (commands i) a

omit [DecidableEq ι] in
/-- Before anything happens no transaction is open. -/
theorem disciplined_start (settings : ι → Settings) (levels : Nat) (w : World S) :
    Disciplined outside commands
      ⟨w, fun i => (Engine.standard (settings i)).execute (levels + 2) (commands i), fun _ => []⟩
      fun _ => none where
  begun _ n hn := absurd hn.symm (Option.some_ne_none n)
  own _ _ n hn := absurd hn.symm (Option.some_ne_none n)
  process i := Engine.execute_disciplined (settings i) levels (commands i) none
  expected _ _ ha := absurd ha List.not_mem_nil

/-- **A step** of one process spares the transactions of all others. -/
theorem Disciplined.step (h : Disciplined outside commands p opened) {i : ι} {q : SharedQuery X}
    {next : (sharedInterface X).Reply q → Process X _} (hprocess : p.processes i = .ask q next)
    {r : (sharedInterface X).Reply q} {w : World S}
    (taken : World.step outside q p.world = some (r, w)) :
    Disciplined outside commands
      ⟨w, Function.update p.processes i (next r),
        Function.update p.steps i (p.steps i ++ [⟨q, r⟩])⟩
      (Function.update opened i (q.opened p.world (opened i))) := by
  have hi := h.process i
  rw [hprocess] at hi
  obtain ⟨hproper, hrest⟩ := hi p.world r w (.refl _ _) taken
  have hnew : ∀ j ≠ i, ∀ n, n ∈ opened j → n ∉ q.opened p.world (opened i) := by
    intro j hj n hn hopened
    rcases SharedQuery.mem_opened hopened with hbefore | rfl
    · exact hj (h.own j i n hn hbefore)
    · exact absurd (h.begun j _ hn) (Nat.lt_irrefl _)
  have hspares : ∀ j ≠ i, World.SparesOpen (opened j) p.world w := fun j hj n hn =>
    (hproper.regards fun hmem => hj (h.own j i n hn hmem)).spares taken
  have hnext : p.world.store.nextTx ≤ w.store.nextTx :=
    World.nextTx_le_of_step (by rintro q' rfl; exact hproper.elim) taken
  constructor
  · intro j n hn
    by_cases hj : j = i
    · subst hj
      rw [Function.update_self] at hn
      exact hproper.lt_nextTx (h.begun j) taken hn
    · rw [Function.update_of_ne hj] at hn
      exact Nat.lt_of_lt_of_le (h.begun j n hn) hnext
  · intro j k n hj hk
    by_cases hji : j = i <;> by_cases hki : k = i
    · exact hji.trans hki.symm
    · subst hji
      rw [Function.update_self] at hj
      rw [Function.update_of_ne hki] at hk
      exact absurd hj (hnew k hki n hk)
    · subst hki
      rw [Function.update_self] at hk
      rw [Function.update_of_ne hji] at hj
      exact absurd hk (hnew j hji n hj)
    · rw [Function.update_of_ne hji] at hj
      rw [Function.update_of_ne hki] at hk
      exact h.own j k n hj hk
  · intro j
    dsimp only
    by_cases hj : j = i
    · subst hj
      rw [Function.update_self, Function.update_self]
      exact hrest
    · rw [Function.update_of_ne hj, Function.update_of_ne hj]
      exact (h.process j).spared (hspares j hj)
  · intro j a ha
    dsimp only at ha
    by_cases hj : j = i
    · subst hj
      rw [Function.update_self] at ha
      rcases List.mem_append.mp ha with ha | ha
      · exact h.expected j a ha
      · obtain rfl := List.mem_singleton.mp ha
        exact expected_of_proper hproper taken
    · rw [Function.update_of_ne hj] at ha
      exact h.expected j a ha

/-- **Whatever happens next**, all processes keep to their locks. -/
theorem Disciplined.perform (h : Disciplined outside commands p opened) (turn : Turn ι S) :
    ∃ opened, Disciplined outside commands (p.perform outside turn) opened := by
  cases turn with
  | change around =>
    refine ⟨opened, h.begun, h.own, fun i => ?_, h.expected⟩
    exact (h.process i).spared fun n _ => .of_same rfl rfl
  | step i =>
    rw [StorePool.perform]
    cases hprocess : p.processes i with
    | done r => exact ⟨opened, h⟩
    | ask q next =>
      dsimp only
      cases hstep : World.step outside q p.world with
      | none => exact ⟨opened, h⟩
      | some taken =>
        obtain ⟨r, w⟩ := taken
        exact ⟨_, h.step hprocess hstep⟩

/-- **Whatever happens**, all processes keep to their locks. -/
theorem disciplined_executing (outside : Outside X S) (settings : ι → Settings) (levels : Nat)
    (commands : ι → Command) (start : World S) (turns : List (Turn ι S)) :
    ∃ opened, Disciplined outside commands
      (executing outside (fun i => Engine.standard (settings i)) (levels + 2) commands start turns)
      opened := by
  induction turns using List.reverseRecOn with
  | nil => exact ⟨_, disciplined_start settings levels start⟩
  | append_singleton turns turn ih =>
    obtain ⟨opened, hopened⟩ := ih
    rw [executing, List.foldl_append]
    exact hopened.perform turn

/-- **Commands of the system commit.** Whatever commands are executed on a store at the same time,
by whatever engines with the handlers and listeners of this library, and in whatever order they take
their steps: the commit of a command that was not sent by a user succeeds. The store refuses it
nothing but the lock on its authority, and this is the only transient error that an attempt to
execute it ends with. -/
theorem system_commits (outside : Outside X S) (settings : ι → Settings) (levels : Nat)
    (commands : ι → Command) (start : World S) (turns : List (Turn ι S)) {p : StorePool ι X S}
    (hp : executing outside (fun i => Engine.standard (settings i)) (levels + 2) commands start
      turns = p) {i : ι} (hsystem : (commands i).group = .system) :
    (∀ tx deletions records, (p.processes i).committing? = some (tx, deletions, records) →
      ∃ w, p.world.commit tx deletions records = .ok w) ∧
    (∀ a ∈ p.steps i, ∀ e, a.failure? = some e →
      e = .lockTimeout (commands i).authority.id) ∧
    ∀ steps err, steps <:+: p.steps i →
      Process.Ends ((Engine.standard (settings i)).attempt (levels + 2) (commands i)) steps
        (.error err) →
      err.isTransient = true → err = .storage (.lockTimeout (commands i).authority.id) := by
  subst hp
  obtain ⟨opened, hopened⟩ :=
    disciplined_executing outside settings levels commands start turns
  have hfailure : ∀ a ∈ (executing outside (fun i => Engine.standard (settings i)) (levels + 2)
      commands start turns).steps i, ∀ e, a.failure? = some e →
        e = .lockTimeout (commands i).authority.id :=
    fun a ha => (hopened.expected i a ha).failure hsystem
  refine ⟨fun tx deletions records hprocess => ?_, hfailure, ?_⟩
  · exact (hopened.process i).commits hsystem hprocess
  · intro steps err hpart hends htransient
    have hnew : ∀ tx : Transaction CertificateAuthority,
        ⟨.start, tx⟩ ∈ steps → tx.entries = OrdMap.empty :=
      fun tx htx => (hopened.expected i _ (hpart.subset htx)).start tx rfl
    obtain ⟨e, rfl, a, ha, hrefused⟩ := Engine.fromStore_of_attempt hends hnew htransient
    rw [hfailure a (hpart.subset ha) e hrefused]

/-- An authority is created while a certificate is revoked, each by an engine of its own. -/
def rivals : Fin 2 → Command
  | 0 => ⟨⟨1, 0⟩, .system, .createCertificateAuthority "authority"⟩
  | 1 => ⟨⟨1, 0⟩, .system, .revokeIncomingCertificate "key"⟩

/-- The second command asks for the lock while the first one holds it. -/
def rivalTurns : List (Turn (Fin 2) Unit) :=
  ([0, 0, 1, 1, 1, 0, 0, 0] : List (Fin 2)).map .step

theorem system_commits_rivals :
    ∃ (p : StorePool (Fin 2) Interface.none Unit) (tx : Transaction CertificateAuthority)
      (deletions : List AggregateId) (records : List PendingRecord) (w : World Unit),
      executing Outside.none (fun _ => Engine.standard .standard) 2 rivals
        (World.initial .standard ()) rivalTurns = p ∧
      (p.processes 0).committing? = some (tx, deletions, records) ∧
      p.world.commit tx deletions records = .ok w ∧
      ∃ a ∈ p.steps 1, a.failure? = some (.lockTimeout 1) := by
  have hcompute : ((executing Outside.none (fun _ => Engine.standard .standard) 2 rivals
      (World.initial .standard ()) rivalTurns).processes 0).committing?.isSome = true ∧
      ((executing Outside.none (fun _ => Engine.standard .standard) 2 rivals
        (World.initial .standard ()) rivalTurns).steps 1).any (·.failure?.isSome) = true := by
    decide +kernel
  obtain ⟨⟨tx, deletions, records⟩, hcommitting⟩ := Option.isSome_iff_exists.mp hcompute.1
  obtain ⟨a, ha, hrefused⟩ := List.any_eq_true.mp hcompute.2
  obtain ⟨e, he⟩ := Option.isSome_iff_exists.mp hrefused
  obtain ⟨w, hw⟩ := (system_commits Outside.none (fun _ => .standard) 0 rivals
    (World.initial .standard ()) rivalTurns rfl (i := 0) rfl).1 tx deletions records hcommitting
  have htimeout : e = .lockTimeout 1 := (system_commits Outside.none (fun _ => .standard) 0 rivals
    (World.initial .standard ()) rivalTurns rfl (i := 1) rfl).2.1 a ha e he
  exact ⟨_, tx, deletions, records, w, rfl, hcommitting, hw, a, ha, htimeout ▸ he⟩

end StorePool

end RpkiAuthority
