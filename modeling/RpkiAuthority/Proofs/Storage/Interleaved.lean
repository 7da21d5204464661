import Mathlib.Data.List.Induction
import RpkiAuthority.Engine.Action
import RpkiAuthority.Proofs.Storage.Release
import RpkiAuthority.Proofs.Storage.Written

/-!
# Transactions side by side

Any number of transactions work on one store, and their operations come in any order
(`TransactionPool`, `Move`). From time to time one of them is committed, and then it is checked that
what it changes is still at the version at which it first looked at it. Versions only ever grow
while an aggregate is there. So a transaction that is committed has changed what nobody else
changed in between, or else what somebody else **removed** in between and what is back at the very
version at which the transaction first looked at it
(`TransactionPool.changed_alone_or_removed`): a version says nothing about removals, since an
aggregate that is added again starts with version zero again.

At which version an aggregate was can be told from the commits (`StoreEvent.lastVersion`), and the
store agrees with that (`TransactionPool.version?_run`).

The second case does happen. A transaction that looked at an aggregate of version zero, or found
none, does not notice that others removed it and added another one, or the other way round, and its
commit overwrites theirs (`TransactionPool.not_changed_alone`).
-/

namespace RpkiAuthority

variable {A : Type}

/-! ### Operations and moves -/

/-- What a transaction does with one aggregate. -/
inductive Operation (A : Type) where
  | get (id : AggregateId)
  | update (id : AggregateId) (change : A → A)
  | insert (a : A)
  | remove (id : AggregateId)

namespace Operation

variable [Aggregate A]

/-- The aggregate that an operation is about. -/
def target : Operation A → AggregateId
  | get id | update id _ | remove id => id
  | insert a => Aggregate.id a

/-- What an operation does to the transaction's copy. -/
def action : Operation A → Entry A → Entry A
  | get _, e => e
  | update _ change, e => e.update change
  | insert a, e => e.insert a
  | remove _, e => e.remove

end Operation

/-- What can happen next. -/
inductive Move (A : Type) where
  | begin
  | operate (tx : TxId) (operation : Operation A)
  | lock (tx : TxId) (id : AggregateId) (mode : LockMode)
  | lockAndIncrement (tx : TxId) (id : AggregateId)
  | commit (tx : TxId)
  | rollback (tx : TxId)

/-- What is remembered of what happened. -/
inductive StoreEvent where
  /-- A transaction looked at an aggregate for the first time. -/
  | looked (tx : TxId) (id : AggregateId)
  /-- A transaction was committed. The aggregates that it changed are listed with the versions they
  have afterwards, those that are gone without. -/
  | committed (tx : TxId) (changed : List (AggregateId × Option Nat))
  deriving DecidableEq

namespace StoreEvent

/-- A change of an aggregate was committed. -/
def Changes (id : AggregateId) : StoreEvent → Prop
  | looked _ _ => False
  | committed _ changed => ∃ version, (id, version) ∈ changed

/-- A change of an aggregate was committed that left none. -/
def Removes (id : AggregateId) : StoreEvent → Prop
  | looked _ _ => False
  | committed _ changed => (id, none) ∈ changed

/-- The version at which an event leaves an aggregate that was at another one before. -/
def leaves (id : AggregateId) (version : Option Nat) : StoreEvent → Option Nat
  | looked _ _ => version
  | committed _ changed => (changed.lookup id).getD version

/-- The version at which the last change of an aggregate that was committed left it. Before the
first one there is no aggregate. -/
def lastVersion (id : AggregateId) (trace : List StoreEvent) : Option Nat :=
  trace.foldl (leaves id) none

theorem lastVersion_concat (id : AggregateId) (trace : List StoreEvent) (event : StoreEvent) :
    lastVersion id (trace ++ [event]) = leaves id (lastVersion id trace) event :=
  List.foldl_append

end StoreEvent

/-- The aggregates that a transaction changed, with the versions that are pending. -/
def Transaction.changed (tx : Transaction A) : List (AggregateId × Option Nat) :=
  (tx.entries.entries.filter fun e => e.2.hasChanges).map fun e => (e.1, e.2.pendingVersion)

/-- A store and the transactions that are under way. -/
structure TransactionPool (A : Type) where
  store : Store A
  running : OrdMap TxId (Transaction A)

namespace TransactionPool

variable [Aggregate A]

/-- Nothing has happened. -/
def initial : TransactionPool A := ⟨Store.empty, OrdMap.empty⟩

/-- A transaction does something with its copy of an aggregate. -/
def touch (p : TransactionPool A) (n : TxId) (tx : Transaction A) (id : AggregateId)
    (action : Entry A → Entry A) : TransactionPool A × List StoreEvent :=
  (⟨p.store, p.running.insert n (p.store.act tx id action)⟩,
    if (tx.entries.find? id).isNone then [.looked n id] else [])

/-- A transaction ends. -/
def finish (p : TransactionPool A) (n : TxId) (store : Store A) : TransactionPool A :=
  ⟨store.release n, p.running.erase n⟩

/-- Does what is next. A lock that is not free is not granted, and who waits for it asks again. -/
def perform (p : TransactionPool A) : Move A → TransactionPool A × List StoreEvent
  | .begin =>
    (⟨p.store.begin.2, p.running.insert p.store.begin.1.id p.store.begin.1⟩, [])
  | .operate n operation =>
    match p.running.find? n with
    | some tx => p.touch n tx operation.target operation.action
    | none => (p, [])
  | .lock n id mode =>
    match p.running.find? n, p.store.lock id n mode with
    | some _, .ok store => ({ p with store := store }, [])
    | _, _ => (p, [])
  | .lockAndIncrement n id =>
    match p.running.find? n, p.store.lock id n .exclusive with
    | some tx, .ok store => touch { p with store := store } n tx id Entry.force
    | _, _ => (p, [])
  | .commit n =>
    match p.running.find? n with
    | some tx =>
      match p.store.commit tx with
      | .ok (_, store) => (p.finish n store, [.committed n tx.changed])
      | .error _ => (p.finish n p.store, [])
    | none => (p, [])
  | .rollback n =>
    match p.running.find? n with
    | some _ => (p.finish n p.store, [])
    | none => (p, [])

/-- Does one thing after the other, and remembers it. -/
def run (moves : List (Move A)) : TransactionPool A × List StoreEvent :=
  moves.foldl (fun p move => ((p.1.perform move).1, p.2 ++ (p.1.perform move).2)) (initial, [])

end TransactionPool

/-! ### What became of an aggregate meanwhile -/

/-- What became of an aggregate since it was at a version, given the version it is at now. -/
inductive Since (id : AggregateId) (base now : Option Nat) (between : List StoreEvent) : Prop
  | untouched (unchanged : ∀ event ∈ between, ¬event.Changes id) (same : now = base)
  | removed (gone : ∃ event ∈ between, event.Removes id)
  | advanced {version : Nat} (there : now = some version) (later : ∀ v ∈ base, v < version)

namespace Since

variable {id : AggregateId} {base now : Option Nat} {between : List StoreEvent} {event : StoreEvent}

/-- Something else happens. -/
theorem append (h : Since id base now between) (hevent : ¬event.Changes id) :
    Since id base now (between ++ [event]) := by
  cases h with
  | untouched unchanged same =>
    refine .untouched (fun e he => ?_) same
    rcases List.mem_append.mp he with he | he
    · exact unchanged e he
    · exact List.mem_singleton.mp he ▸ hevent
  | removed gone =>
    obtain ⟨e, he, hgone⟩ := gone
    exact .removed ⟨e, List.mem_append_left _ he, hgone⟩
  | advanced there later => exact .advanced there later

/-- A change is committed that leaves a greater version, or none. -/
theorem append_change {next : Option Nat} (h : Since id base now between)
    (hnext : next = none → event.Removes id) (hlater : ∀ v ∈ next, ∀ u ∈ now, u < v) :
    Since id base next (between ++ [event]) := by
  have hlast : event ∈ between ++ [event] := List.mem_append_right _ List.mem_cons_self
  cases next with
  | none => exact .removed ⟨event, hlast, hnext rfl⟩
  | some version =>
    cases h with
    | untouched _ same => exact .advanced rfl fun v hv => hlater version rfl v (same ▸ hv)
    | removed gone =>
      obtain ⟨e, he, hgone⟩ := gone
      exact .removed ⟨e, List.mem_append_left _ he, hgone⟩
    | advanced there later =>
      exact .advanced rfl fun v hv => Nat.lt_trans (later v hv) (hlater version rfl _ there)

/-- An aggregate that is at the same version was left alone or removed. -/
theorem of_same (h : Since id base base between) :
    (∀ event ∈ between, ¬event.Changes id) ∨ ∃ event ∈ between, event.Removes id := by
  cases h with
  | untouched unchanged _ => exact Or.inl unchanged
  | removed gone => exact Or.inr gone
  | advanced there later => exact absurd (later _ there) (Nat.lt_irrefl _)

end Since

/-! ### Copies and what was looked at -/

namespace Entry

/-- The version that is pending is greater than the one that was found. -/
theorem base_lt_pendingVersion {e : Entry A} {version : Nat} (hchanges : e.hasChanges = true)
    (hpending : e.pendingVersion = some version) : ∀ v ∈ e.base, v < version := by
  intro v hv
  cases hworking : e.working with
  | none => simp [pendingVersion, hworking] at hpending
  | some a =>
    have hbase : e.base = some v := hv
    simp only [pendingVersion, hworking, hbase, hchanges, if_true, Option.some.injEq] at hpending
    exact hpending ▸ Nat.lt_succ_self v

end Entry

theorem Operation.base_action [Aggregate A] (o : Operation A) (e : Entry A) :
    (o.action e).base = e.base := by
  cases o with
  | get id => rfl
  | update id change => exact e.base_update change
  | insert a => exact e.base_insert a
  | remove id => exact e.base_remove

theorem Transaction.mem_changed {tx : Transaction A} {id : AggregateId} {version : Option Nat} :
    (id, version) ∈ tx.changed ↔
      ∃ e, tx.entries.find? id = some e ∧ e.hasChanges = true ∧ e.pendingVersion = version := by
  simp only [changed, List.mem_map, List.mem_filter, Prod.exists, Prod.mk.injEq,
    OrdMap.find?_eq_some_iff]
  constructor
  · rintro ⟨q, e, ⟨he, hchanges⟩, rfl, rfl⟩
    exact ⟨e, he, hchanges, rfl⟩
  · rintro ⟨e, he, hchanges, rfl⟩
    exact ⟨id, e, ⟨he, hchanges⟩, rfl, rfl⟩

/-- Every aggregate that a transaction changed is listed once, with the version that is pending. -/
theorem Transaction.lookup_changed (tx : Transaction A) (id : AggregateId) :
    tx.changed.lookup id =
      ((tx.entries.find? id).filter Entry.hasChanges).map Entry.pendingVersion := by
  cases hlookup : tx.changed.lookup id with
  | none =>
    have hunlisted := List.lookup_eq_none_iff.mp hlookup
    rw [Option.filter_eq_none_iff.mpr, Option.map_none]
    intro e hentry hchanges
    simpa using hunlisted _ (Transaction.mem_changed.mpr ⟨e, hentry, hchanges, rfl⟩)
  | some version =>
    obtain ⟨before, after, hsplit, -⟩ := List.lookup_eq_some_iff.mp hlookup
    have hlisted : (id, version) ∈ tx.changed := hsplit ▸ List.mem_append_right _ List.mem_cons_self
    obtain ⟨e, hentry, hchanges, rfl⟩ := Transaction.mem_changed.mp hlisted
    rw [hentry, Option.filter_some, if_pos hchanges, Option.map_some]

namespace TransactionPool

open StoreEvent

variable [Aggregate A] {p : TransactionPool A} {trace : List StoreEvent} {n : TxId}
  {tx : Transaction A} {id : AggregateId}

/-- What happened before a transaction first looked at an aggregate and since, and what is known of
that. -/
def Seen (trace : List StoreEvent) (n : TxId) (id : AggregateId)
    (known : List StoreEvent → List StoreEvent → Prop) : Prop :=
  ∃ before between, trace = before ++ .looked n id :: between ∧ .looked n id ∉ before ∧
    known before between

/-- One more event is one since a transaction looked. -/
theorem Seen.append {known known' : List StoreEvent → Prop} {base : Option Nat}
    {event : StoreEvent}
    (h : Seen trace n id fun before between => lastVersion id before = base ∧ known between)
    (hknown : ∀ between, known between → known' (between ++ [event])) :
    Seen (trace ++ [event]) n id fun before between =>
      lastVersion id before = base ∧ known' between := by
  obtain ⟨before, between, rfl, hfirst, hbase, hbetween⟩ := h
  refine ⟨before, between ++ [event], ?_, hfirst, hbase, hknown between hbetween⟩
  rw [List.append_assoc, List.cons_append]

/-- **What is known of the transactions under way**: the store has the versions that the commits
tell of, every copy was made when its transaction first looked at the aggregate, at the version of
that time, and what became of the aggregate since is known. Of the transactions that were committed
it is known that what they changed was at the version of that time again, and that it was left
alone or removed in between. -/
structure Watched (p : TransactionPool A) (trace : List StoreEvent) : Prop where
  current : ∀ id, p.store.version? id = lastVersion id trace
  begun : ∀ {n tx}, p.running.find? n = some tx → n < p.store.nextTx
  past : ∀ {n id}, .looked n id ∈ trace → n < p.store.nextTx
  unseen : ∀ {n tx id}, p.running.find? n = some tx → tx.entries.find? id = none →
    .looked n id ∉ trace
  seen : ∀ {n tx id e}, p.running.find? n = some tx → tx.entries.find? id = some e →
    Seen trace n id fun before between =>
      lastVersion id before = e.base ∧ Since id e.base (p.store.version? id) between
  told : ∀ {earlier n changed}, earlier ++ [.committed n changed] <+: trace →
    ∀ {id version}, (id, version) ∈ changed → Seen earlier n id fun before between =>
      lastVersion id earlier = lastVersion id before ∧
        ((∀ event ∈ between, ¬event.Changes id) ∨ ∃ event ∈ between, event.Removes id)

theorem watched_initial : Watched (initial : TransactionPool A) [] where
  current _ := rfl
  begun h := absurd h.symm (Option.some_ne_none _)
  past h := absurd h List.not_mem_nil
  unseen h := absurd h.symm (Option.some_ne_none _)
  seen h := absurd h.symm (Option.some_ne_none _)
  told h := absurd (List.prefix_nil.mp h) (by simp)

/-- Locks do not matter. -/
theorem Watched.of_store (h : Watched p trace) {store : Store A}
    (haggregates : store.aggregates = p.store.aggregates)
    (hnext : store.nextTx = p.store.nextTx) : Watched { p with store := store } trace where
  current id := by
    rw [Store.version?, Store.get?, haggregates]
    exact h.current id
  begun hrunning := hnext ▸ h.begun hrunning
  past hlooked := hnext ▸ h.past hlooked
  unseen := h.unseen
  seen hrunning hentry := by
    rw [Store.version?, Store.get?, haggregates]
    exact h.seen hrunning hentry
  told := h.told

/-- A transaction that begins has not looked at anything. -/
theorem Watched.begin (h : Watched p trace) : Watched (p.perform .begin).1 trace where
  current := h.current
  begun hrunning := by
    rcases OrdMap.find?_insert_eq_some_iff.mp hrunning with ⟨rfl, -⟩ | ⟨-, hold⟩
    · exact Nat.lt_succ_self _
    · exact Nat.lt_succ_of_lt (h.begun hold)
  past hlooked := Nat.lt_succ_of_lt (h.past hlooked)
  unseen hrunning hentry := by
    rcases OrdMap.find?_insert_eq_some_iff.mp hrunning with ⟨rfl, -⟩ | ⟨-, hold⟩
    · exact fun hlooked => absurd (h.past hlooked) (Nat.lt_irrefl _)
    · exact h.unseen hold hentry
  seen hrunning hentry := by
    rcases OrdMap.find?_insert_eq_some_iff.mp hrunning with ⟨-, rfl⟩ | ⟨-, hold⟩
    · exact absurd hentry.symm (Option.some_ne_none _)
    · exact h.seen hold hentry
  told := h.told

/-- A transaction that ends is no longer under way. -/
theorem Watched.finish (h : Watched p trace) (n : TxId) :
    Watched (p.finish n p.store) trace where
  current := h.current
  begun hrunning := h.begun (OrdMap.find?_erase_eq_some_iff.mp hrunning).2
  past := h.past
  unseen hrunning hentry := h.unseen (OrdMap.find?_erase_eq_some_iff.mp hrunning).2 hentry
  seen hrunning hentry := h.seen (OrdMap.find?_erase_eq_some_iff.mp hrunning).2 hentry
  told := h.told

omit [Aggregate A] in
/-- The copies after a transaction has replaced one of its own. -/
theorem copy_cases {q : TxId} {tx' : Transaction A} {e : Entry A}
    (hrunning : p.running.find? n = some tx)
    (h : (p.running.insert n (tx.setEntry id e)).find? q = some tx') (id' : AggregateId) :
    (q = n ∧ id' = id ∧ tx'.entries.find? id' = some e) ∨
      (¬(q = n ∧ id' = id) ∧
        ∃ old, p.running.find? q = some old ∧ old.entries.find? id' = tx'.entries.find? id') := by
  rcases OrdMap.find?_insert_eq_some_iff.mp h with ⟨rfl, rfl⟩ | ⟨hq, hold⟩
  · by_cases hid : id' = id
    · exact Or.inl ⟨rfl, hid, hid ▸ OrdMap.find?_insert_self tx.entries id' e⟩
    · exact Or.inr ⟨fun hown => hid hown.2, tx, hrunning,
        (OrdMap.find?_insert_of_ne tx.entries hid e).symm⟩
  · exact Or.inr ⟨fun hown => hq hown.1, tx', hold, rfl⟩

/-- A transaction that replaces one of its copies remains the same transaction. -/
theorem Watched.begun_of_replace {q : TxId} {tx' : Transaction A} {e : Entry A}
    (h : Watched p trace) (hrunning : p.running.find? n = some tx)
    (hrunning' : (p.running.insert n (tx.setEntry id e)).find? q = some tx') :
    q < p.store.nextTx := by
  rcases copy_cases hrunning hrunning' id with ⟨rfl, -, -⟩ | ⟨-, old, hold, -⟩
  · exact h.begun hrunning
  · exact h.begun hold

/-- A transaction that has a copy works on that. -/
theorem Watched.touch_again (h : Watched p trace) (hrunning : p.running.find? n = some tx)
    {e e' : Entry A} (hentry : tx.entries.find? id = some e) (hbase : e'.base = e.base) :
    Watched { p with running := p.running.insert n (tx.setEntry id e') } trace where
  current := h.current
  begun hrunning' := h.begun_of_replace hrunning hrunning'
  past := h.past
  unseen {q tx' id'} hrunning' hentry' := by
    rcases copy_cases hrunning hrunning' id' with ⟨-, -, hnew⟩ | ⟨-, old, hold, hsame⟩
    · exact absurd (hnew.symm.trans hentry') (Option.some_ne_none e')
    · exact h.unseen hold (hsame.trans hentry')
  seen {q tx' id' f} hrunning' hentry' := by
    rcases copy_cases hrunning hrunning' id' with ⟨rfl, rfl, hnew⟩ | ⟨-, old, hold, hsame⟩
    · obtain rfl : e' = f := Option.some.inj (hnew.symm.trans hentry')
      exact hbase.symm ▸ h.seen hrunning hentry
    · exact h.seen hold (hsame.trans hentry')
  told := h.told

/-- A transaction that has no copy makes one of what is there now. -/
theorem Watched.touch_first (h : Watched p trace) (hrunning : p.running.find? n = some tx)
    {e : Entry A} (hentry : tx.entries.find? id = none) (hbase : e.base = p.store.version? id) :
    Watched { p with running := p.running.insert n (tx.setEntry id e) }
      (trace ++ [.looked n id]) where
  current id' := by
    rw [lastVersion_concat]
    exact h.current id'
  begun hrunning' := h.begun_of_replace hrunning hrunning'
  past {q id'} hlooked := by
    rcases List.mem_append.mp hlooked with hpast | hnow
    · exact h.past hpast
    · obtain ⟨rfl, -⟩ : q = n ∧ id' = id := by simpa using hnow
      exact h.begun hrunning
  unseen {q tx' id'} hrunning' hentry' hlooked := by
    rcases copy_cases hrunning hrunning' id' with ⟨-, -, hnew⟩ | ⟨hother, old, hold, hsame⟩
    · exact Option.some_ne_none e (hnew.symm.trans hentry')
    rcases List.mem_append.mp hlooked with hpast | hnow
    · exact h.unseen hold (hsame.trans hentry') hpast
    · exact hother (by simpa using hnow)
  seen {q tx' id' f} hrunning' hentry' := by
    rcases copy_cases hrunning hrunning' id' with ⟨rfl, rfl, hnew⟩ | ⟨-, old, hold, hsame⟩
    · obtain rfl : e = f := Option.some.inj (hnew.symm.trans hentry')
      have hnothing : ∀ event ∈ ([] : List StoreEvent), ¬event.Changes id' := by simp
      exact ⟨trace, [], rfl, h.unseen hrunning hentry, (hbase.trans (h.current id')).symm,
        .untouched hnothing hbase.symm⟩
    · exact (h.seen hold (hsame.trans hentry')).append fun between hbetween =>
        hbetween.append not_false
  told {earlier q changed} hprefix := by
    rcases List.prefix_concat_iff.mp hprefix with heq | hpast
    · have hlast := List.append_inj_right' heq rfl
      simp at hlast
    · exact h.told hpast

/-- Whatever a transaction does with its copy of an aggregate. -/
theorem Watched.touch (h : Watched p trace) (hrunning : p.running.find? n = some tx)
    {action : Entry A → Entry A} (haction : ∀ e, (action e).base = e.base) :
    Watched (p.touch n tx id action).1 (trace ++ (p.touch n tx id action).2) := by
  rw [TransactionPool.touch, Store.act, Store.entry, Transaction.entry]
  cases hentry : tx.entries.find? id with
  | none => exact h.touch_first hrunning hentry (haction _)
  | some e =>
    rw [Option.isNone_some, if_neg Bool.false_ne_true, List.append_nil]
    exact h.touch_again hrunning hentry (haction e)

/-! ### Commits -/

section Commit

variable [LawfulAggregate A] {store : Store A} {versions : VersionMap}

/-- A commit leaves every aggregate at the version that it says. -/
theorem version?_commit (hcommit : p.store.commit tx = .ok (versions, store)) (n : TxId)
    (id : AggregateId) :
    store.version? id = leaves id (p.store.version? id) (.committed n tx.changed) := by
  rw [leaves, tx.lookup_changed, Store.version?, Store.get?_of_commit hcommit id]
  cases (tx.entries.find? id).filter Entry.hasChanges with
  | none => rfl
  | some e => exact e.version_written

/-- A commit says of every aggregate that it changed what became of it. -/
theorem since_commit {base : Option Nat} {between : List StoreEvent}
    (h : Since id base (p.store.version? id) between)
    (hcommit : p.store.commit tx = .ok (versions, store)) :
    Since id base (store.version? id) (between ++ [.committed n tx.changed]) := by
  have hversion := version?_commit hcommit n id
  by_cases hchanged : ∃ e, tx.entries.find? id = some e ∧ e.hasChanges = true
  · obtain ⟨e, hentry, hchanges⟩ := hchanged
    have hwritten : store.version? id = e.pendingVersion := by
      rw [hversion, leaves, tx.lookup_changed, hentry, Option.filter_some, if_pos hchanges]
      rfl
    have hfound : p.store.version? id = e.base :=
      Store.version?_of_commit hcommit hentry hchanges
    rw [hwritten]
    refine h.append_change (fun hnone => ?_) fun version hversion => ?_
    · exact Transaction.mem_changed.mpr ⟨e, hentry, hchanges, hnone⟩
    · rw [hfound]
      exact Entry.base_lt_pendingVersion hchanges hversion
  · have hsame : store.version? id = p.store.version? id := by
      rw [hversion, leaves, tx.lookup_changed, Option.filter_eq_none_iff.mpr]
      · rfl
      · exact fun e hentry hchanges => hchanged ⟨e, hentry, hchanges⟩
    rw [hsame]
    refine h.append fun hchange => hchanged ?_
    obtain ⟨version, hversion⟩ := hchange
    obtain ⟨e, hentry, hchanges, -⟩ := Transaction.mem_changed.mp hversion
    exact ⟨e, hentry, hchanges⟩

/-- A transaction is committed that has found everything at the version that it knows. -/
theorem Watched.commit (h : Watched p trace) (hrunning : p.running.find? n = some tx)
    (hcommit : p.store.commit tx = .ok (versions, store)) :
    Watched (p.finish n store) (trace ++ [.committed n tx.changed]) where
  current id := by
    rw [lastVersion_concat, ← h.current id]
    exact version?_commit hcommit n id
  begun hrunning' := by
    obtain ⟨-, -, rfl⟩ := Store.commit_eq_ok hcommit
    exact h.begun (OrdMap.find?_erase_eq_some_iff.mp hrunning').2
  past hlooked := by
    obtain ⟨-, -, rfl⟩ := Store.commit_eq_ok hcommit
    exact h.past (by simpa using hlooked)
  unseen hrunning' hentry hlooked :=
    h.unseen (OrdMap.find?_erase_eq_some_iff.mp hrunning').2 hentry (by simpa using hlooked)
  seen {q tx' id e} hrunning' hentry := by
    have hsince : ∀ between, Since id e.base (p.store.version? id) between →
        Since id e.base (store.version? id) (between ++ [.committed n tx.changed]) :=
      fun between hbetween => since_commit hbetween hcommit
    exact (h.seen (OrdMap.find?_erase_eq_some_iff.mp hrunning').2 hentry).append hsince
  told {earlier q changed} hprefix {id version} hchanged := by
    rcases List.prefix_concat_iff.mp hprefix with heq | hpast
    · obtain ⟨rfl, hlast⟩ := List.append_inj' heq rfl
      obtain ⟨rfl, rfl⟩ : q = n ∧ changed = tx.changed := by simpa using hlast
      obtain ⟨e, hentry, hchanges, -⟩ := Transaction.mem_changed.mp hchanged
      obtain ⟨before, between, htrace, hfirst, hbase, hbetween⟩ := h.seen hrunning hentry
      have hfound : p.store.version? id = e.base :=
        Store.version?_of_commit hcommit hentry hchanges
      rw [hfound] at hbetween
      refine ⟨before, between, htrace, hfirst, ?_, hbetween.of_same⟩
      rw [← h.current id, hfound, hbase]
    · exact h.told hpast hchanged

/-- **Whatever happens next**, what is known of the transactions remains known. -/
theorem Watched.perform (h : Watched p trace) (move : Move A) :
    Watched (p.perform move).1 (trace ++ (p.perform move).2) := by
  have silent {p' : TransactionPool A} (h' : Watched p' trace) : Watched p' (trace ++ []) :=
    (List.append_nil trace).symm ▸ h'
  cases move with
  | begin => exact silent h.begin
  | operate n operation =>
    rw [TransactionPool.perform]
    cases hrunning : p.running.find? n with
    | none => exact silent h
    | some tx => exact h.touch hrunning operation.base_action
  | lock n id mode =>
    rw [TransactionPool.perform]
    split
    next hlock =>
      obtain ⟨haggregates, hnext⟩ := Store.kept_of_lock hlock
      exact silent (h.of_store haggregates hnext)
    next => exact silent h
  | lockAndIncrement n id =>
    rw [TransactionPool.perform]
    split
    next hrunning hlock =>
      obtain ⟨haggregates, hnext⟩ := Store.kept_of_lock hlock
      exact (h.of_store haggregates hnext).touch hrunning Entry.base_force
    next => exact silent h
  | commit n =>
    rw [TransactionPool.perform]
    split
    next hrunning =>
      split
      next hcommit => exact h.commit hrunning hcommit
      next => exact silent (h.finish n)
    next => exact silent h
  | rollback n =>
    rw [TransactionPool.perform]
    split
    next => exact silent (h.finish n)
    next => exact silent h

omit [LawfulAggregate A] in
/-- One more move. -/
theorem run_concat (moves : List (Move A)) (move : Move A) :
    run (moves ++ [move]) = (((run moves).1.perform move).1,
      (run moves).2 ++ ((run moves).1.perform move).2) := by
  rw [run, List.foldl_append]
  rfl

/-- After any moves it is known of the transactions what has been said. -/
theorem watched_run (moves : List (Move A)) :
    Watched (run moves : TransactionPool A × _).1 (run moves).2 := by
  induction moves using List.reverseRecOn with
  | nil => exact watched_initial
  | append_singleton moves move ih =>
    rw [run_concat]
    exact ih.perform move

/-- The store has the versions that the commits tell of. -/
theorem version?_run (moves : List (Move A)) (id : AggregateId) :
    (run moves).1.store.version? id = lastVersion id (run moves).2 :=
  (watched_run moves).current id

/-- **A committed transaction has changed what was left alone or removed meanwhile.** Whatever any
number of transactions do, in whatever order: if one of them is committed and has changed an
aggregate, then it has looked at that aggregate before, and the version at which the last change
left the aggregate is the one from before it first did so. Since then no other change of the
aggregate was committed, or one was that left no aggregate. -/
theorem changed_alone_or_removed {moves : List (Move A)} {earlier : List StoreEvent}
    {changed : List (AggregateId × Option Nat)} {version : Option Nat}
    (hcommitted : earlier ++ [.committed n changed] <+: (run moves).2)
    (hchanged : (id, version) ∈ changed) :
    ∃ before between, earlier = before ++ .looked n id :: between ∧ .looked n id ∉ before ∧
      lastVersion id earlier = lastVersion id before ∧
      ((∀ event ∈ between, ¬event.Changes id) ∨ ∃ event ∈ between, event.Removes id) :=
  (watched_run moves).told hcommitted hchanged

end Commit

/-! ### An aggregate that is removed and added again -/

instance : LawfulAggregate CertificateAuthority where
  version_withVersion _ _ := rfl

/-- An authority that the first transaction adds and the second one is going to change is removed by
the third one and added again by the fourth one, before the second one is committed. -/
def overwriting : List (Move CertificateAuthority) :=
  let ca := CertificateAuthority.create 1 "ca" (Uuid.ofNat 7)
  [.begin, .operate 1 (.insert ca), .commit 1,
    .begin, .operate 2 (.update 1 CertificateAuthority.markUpdated),
    .begin, .operate 3 (.remove 1), .commit 3,
    .begin, .operate 4 (.insert ca), .commit 4,
    .commit 2]

theorem changed_alone_or_removed_overwriting :
    ∃ before between, [.looked 1 1, .committed 1 [(1, some 0)], .looked 2 1, .looked 3 1,
        .committed 3 [(1, none)], .looked 4 1, .committed 4 [(1, some 0)]] =
          before ++ StoreEvent.looked 2 1 :: between ∧ .looked 2 1 ∉ before ∧
      some 0 = lastVersion 1 before ∧
      ((∀ event ∈ between, ¬event.Changes 1) ∨ ∃ event ∈ between, event.Removes 1) := by
  have htrace : [.looked 1 1, .committed 1 [(1, some 0)], .looked 2 1, .looked 3 1,
      .committed 3 [(1, none)], .looked 4 1, .committed 4 [(1, some 0)]] ++
        [.committed 2 [(1, some 1)]] <+: (run overwriting).2 := by decide +kernel
  exact changed_alone_or_removed htrace List.mem_cons_self

/-- **A committed transaction has not always changed what was left alone**: the second transaction
is committed although two others changed the authority since it looked at it, and what the fourth
one added is lost. -/
theorem not_changed_alone :
    ¬∀ (moves : List (Move CertificateAuthority)) (before between : List StoreEvent) (n : TxId)
      (changed : List (AggregateId × Option Nat)) (id : AggregateId) (version : Option Nat),
      before ++ .looked n id :: between ++ [.committed n changed] <+: (run moves).2 →
      .looked n id ∉ before → (id, version) ∈ changed →
      ∀ other changed' version', other ≠ n → .committed other changed' ∈ between →
        (id, version') ∉ changed' := by
  intro h
  have htrace : [.looked 1 1, .committed 1 [(1, some 0)]] ++ .looked 2 1 :: [.looked 3 1,
      .committed 3 [(1, none)], .looked 4 1, .committed 4 [(1, some 0)]] ++
        [.committed 2 [(1, some 1)]] <+: (run overwriting).2 := by decide +kernel
  exact h overwriting _ _ 2 _ 1 (some 1) htrace (by decide) List.mem_cons_self 3 [(1, none)] none
    (by decide) (by decide) List.mem_cons_self

end TransactionPool

end RpkiAuthority
