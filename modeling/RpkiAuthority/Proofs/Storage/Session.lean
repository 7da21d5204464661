import RpkiAuthority.Proofs.Storage.Interleaved

/-!
# A transaction and a plain map

What a transaction is asked, it could just as well ask a plain map (`Plain`): a map without copies,
in which every change takes place at once, with a list of what was changed. All that the entries of
a transaction are for is to give the same answers while the store stays as it is, and to lead to
that map in one go when the transaction is committed (`Session.commit_run`).

For each aggregate, the entry of the transaction reflects the map (`Plain.Reflected`): its copy is
what the map has, its base is the version at the start, and it has changes if the aggregate is among
those that were changed. So there is one version that an aggregate can get, however often and in
whatever order it was changed, removed and added again.

In between, others may take and release locks, begin transactions and ask for numbers, but they
commit nothing.
-/

namespace RpkiAuthority

variable {A : Type} [Aggregate A]

/-! ### Requests -/

/-- What a transaction can be asked for. -/
inductive Request (A : Type) where
  | operate (operation : Operation A)
  /-- Lock an aggregate, and increment its version in any case. -/
  | lockAndIncrement (id : AggregateId)
  /-- The version that an aggregate will have after the transaction. -/
  | pendingVersion (id : AggregateId)

/-- What a transaction answers. -/
inductive Answer (A : Type) where
  | found (a : Option A)
  | done (succeeded : Bool)
  | lock (r : Except StorageError Unit)
  | version (v : Option Nat)
  deriving DecidableEq

/-- What can happen next. -/
inductive Occurrence (A : Type) where
  | request (r : Request A)
  /-- Others do something, but commit nothing. -/
  | meanwhile (around : Store A)

/-! ### Sessions -/

/-- A store and a transaction that is under way. -/
structure Session (A : Type) where
  store : Store A
  tx : Transaction A

/-- What is answered, given what there is. -/
def Operation.answer : Operation A → Option A → Answer A
  | get _, found | remove _, found => .found found
  | update _ _, found => .done found.isSome
  | insert _, found => .done found.isNone

namespace Session

/-- Starts a transaction. -/
def begin (s : Store A) : Session A := ⟨s.begin.2, s.begin.1⟩

/-- Lets the transaction act on its copy of an aggregate. -/
def act (s : Session A) (id : AggregateId) (action : Entry A → Entry A) : Session A :=
  { s with tx := s.store.act s.tx id action }

/-- The transaction's copy of an aggregate. -/
def entry (s : Session A) (id : AggregateId) : Entry A := s.store.entry s.tx id

/-- Does what is asked for. -/
def perform (s : Session A) : Request A → Answer A × Session A
  | .operate o => (o.answer (s.entry o.target).working, s.act o.target o.action)
  | .lockAndIncrement id =>
    match s.store.lock id s.tx.id .exclusive with
    | .ok store => (.lock (.ok ()), act { s with store := store } id Entry.force)
    | .error e => (.lock (.error e), s)
  | .pendingVersion id => (.version (s.entry id).pendingVersion, s.act id fun e => e)

/-- Does one thing after the other. -/
def run : Session A → List (Occurrence A) → List (Answer A) × Session A
  | s, [] => ([], s)
  | s, .request r :: rest =>
    let (answers, last) := (s.perform r).2.run rest
    ((s.perform r).1 :: answers, last)
  | s, .meanwhile around :: rest =>
    run { s with store := { around with aggregates := s.store.aggregates } } rest

end Session

/-! ### Plain maps -/

/-- **A plain map** of aggregates, with what was done to them. -/
structure Plain (A : Type) where
  aggregates : OrdMap AggregateId A
  locks : LockTable
  /-- The aggregates that were asked for. -/
  touched : List AggregateId
  /-- The aggregates that were changed, added or removed, or are to be incremented in any case. -/
  changed : List AggregateId

namespace Plain

/-- The map that a store has. -/
def ofStore (s : Store A) : Plain A := ⟨s.aggregates, s.locks, [], []⟩

def touch (p : Plain A) (id : AggregateId) : Plain A := { p with touched := id :: p.touched }

/-- Puts an aggregate into the map. -/
def put (p : Plain A) (id : AggregateId) (a : A) : Plain A :=
  { p.touch id with aggregates := p.aggregates.insert id a, changed := id :: p.changed }

/-- Takes an aggregate out of the map. -/
def take (p : Plain A) (id : AggregateId) : Plain A :=
  { p.touch id with aggregates := p.aggregates.erase id, changed := id :: p.changed }

/-- Counts an aggregate as changed, if there is one. -/
def force (p : Plain A) (id : AggregateId) : Plain A :=
  { p.touch id with changed := if p.aggregates.contains id then id :: p.changed else p.changed }

/-- **The version** that an aggregate gets: zero if there was none at the start, and else the one it
had, or the next one if it was changed. -/
def versionAfter (start : Store A) (p : Plain A) (id : AggregateId) : Nat :=
  match start.version? id with
  | none => 0
  | some version => if id ∈ p.changed then version + 1 else version

/-- The version of an aggregate, if there is one. -/
def version? (start : Store A) (p : Plain A) (id : AggregateId) : Option Nat :=
  (p.aggregates.find? id).map fun _ => p.versionAfter start id

/-- **What is to be committed**: what the map has, at a new version if it was changed. -/
def get? (start : Store A) (p : Plain A) (id : AggregateId) : Option A :=
  (p.aggregates.find? id).map fun a =>
    if id ∈ p.changed then Aggregate.withVersion (p.versionAfter start id) a else a

/-- Does at once what is asked for. What cannot be done changes nothing. -/
def perform (start : Store A) (tx : TxId) (p : Plain A) : Request A → Answer A × Plain A
  | .operate (.get id) => (.found (p.aggregates.find? id), p.touch id)
  | .operate (.update id change) =>
    match p.aggregates.find? id with
    | some a => (.done true, p.put id (change a))
    | none => (.done false, p.touch id)
  | .operate (.insert a) =>
    match p.aggregates.find? (Aggregate.id a) with
    | some _ => (.done false, p.touch (Aggregate.id a))
    | none => (.done true, p.put (Aggregate.id a) a)
  | .operate (.remove id) =>
    match p.aggregates.find? id with
    | some a => (.found (some a), p.take id)
    | none => (.found none, p.touch id)
  | .lockAndIncrement id =>
    match p.locks.acquire id tx .exclusive with
    | .error e => (.lock (.error e), p)
    | .ok locks => (.lock (.ok ()), force { p with locks := locks } id)
  | .pendingVersion id => (.version (p.version? start id), p.touch id)

/-- Does one thing after the other. -/
def run (start : Store A) (tx : TxId) : Plain A → List (Occurrence A) → List (Answer A) × Plain A
  | p, [] => ([], p)
  | p, .request r :: rest =>
    let (answers, last) := run start tx (p.perform start tx r).2 rest
    ((p.perform start tx r).1 :: answers, last)
  | p, .meanwhile around :: rest => run start tx { p with locks := around.locks } rest

end Plain

/-! ### Entries reflect the map -/

/-- **An entry reflects the map**: its copy is what the map has, and it has changes if the aggregate
is among those that were changed. Otherwise the map has what there was at the start. -/
structure Plain.Reflected (start : Store A) (p : Plain A) (id : AggregateId) (e : Entry A) :
    Prop where
  base : e.base = start.version? id
  working : e.working = p.aggregates.find? id
  changes : e.hasChanges = true ↔ id ∈ p.changed
  same : id ∉ p.changed → p.aggregates.find? id = start.get? id

/-- **A session refines a plain map**: all its entries reflect the map, those included that will
only be made when they are asked for. -/
structure Session.Refines (start : Store A) (s : Session A) (p : Plain A) : Prop where
  aggregates : s.store.aggregates = start.aggregates
  locks : s.store.locks = p.locks
  id : s.tx.id = start.nextTx
  reflected : ∀ id, p.Reflected start id (s.entry id)
  touched : ∀ id, (s.tx.entries.find? id).isSome = true ↔ id ∈ p.touched

section Refinement

variable {start : Store A} {s : Session A} {p p' : Plain A} {id q : AggregateId} {e : Entry A}
  {action : Entry A → Entry A}

theorem Session.entry_act :
    (s.act id action).entry q = if q = id then action (s.entry id) else s.entry q := by
  rw [entry, act, Store.entry, Transaction.entry, Store.act, Transaction.setEntry]
  split
  · next h =>
    rw [h, OrdMap.find?_insert_self]
    rfl
  · next h =>
    rw [OrdMap.find?_insert_of_ne _ h]
    rfl

theorem Session.isSome_find?_act :
    ((s.act id action).tx.entries.find? q).isSome = true ↔
      q = id ∨ (s.tx.entries.find? q).isSome = true := by
  rw [act, Store.act, Transaction.setEntry]
  by_cases h : q = id
  · simp [h, OrdMap.find?_insert_self]
  · simp [h, OrdMap.find?_insert_of_ne]

/-- The entry of an aggregate is pending at the version that the map gives it. -/
theorem Plain.Reflected.pendingVersion (h : p.Reflected start id e) :
    e.pendingVersion = p.version? start id := by
  rw [Entry.pendingVersion, h.working, h.base, version?, versionAfter]
  cases p.aggregates.find? id with
  | none => rfl
  | some a =>
    cases start.version? id with
    | none => rfl
    | some version =>
      by_cases hchanged : id ∈ p.changed
      · simp [hchanged, h.changes.mpr hchanged]
      · simp [hchanged, Bool.eq_false_iff.mpr fun hchanges => hchanged (h.changes.mp hchanges)]

/-- What is done to other aggregates does not matter. -/
theorem Plain.Reflected.of_ne (h : p.Reflected start q e)
    (haggregates : p'.aggregates.find? q = p.aggregates.find? q)
    (hchanged : q ∈ p'.changed ↔ q ∈ p.changed) : p'.Reflected start q e :=
  ⟨h.base, h.working.trans haggregates.symm, h.changes.trans hchanged.symm,
    fun hnot => haggregates.trans (h.same fun hin => hnot (hchanged.mpr hin))⟩

/-- **An aggregate that was changed** is reflected by an entry with changes. -/
theorem Plain.Reflected.of_changed (h : p.Reflected start id e) {e' : Entry A}
    (hbase : e'.base = e.base) (hworking : e'.working = p'.aggregates.find? id)
    (hchanges : e'.hasChanges = true) (hchanged : id ∈ p'.changed) : p'.Reflected start id e' :=
  ⟨hbase.trans h.base, hworking, iff_of_true hchanges hchanged, fun hnot => absurd hchanged hnot⟩

/-- **An operation on one aggregate** keeps the refinement if it does to the entry what is done to
the map. -/
theorem Session.Refines.act (h : s.Refines start p) (hlocks : p'.locks = p.locks)
    (hself : p'.Reflected start id (action (s.entry id)))
    (hothers : ∀ q ≠ id, p'.aggregates.find? q = p.aggregates.find? q ∧
      (q ∈ p'.changed ↔ q ∈ p.changed))
    (htouched : p'.touched = id :: p.touched) : (s.act id action).Refines start p' where
  aggregates := h.aggregates
  locks := h.locks.trans hlocks.symm
  id := h.id
  reflected q := by
    rw [entry_act]
    split
    · next hq => exact hq ▸ hself
    · next hq => exact (h.reflected q).of_ne (hothers q hq).1 (hothers q hq).2
  touched q := by rw [isSome_find?_act, h.touched, htouched, List.mem_cons]

theorem Session.Refines.touch (h : s.Refines start p) (hsame : action (s.entry id) = s.entry id) :
    (s.act id action).Refines start (p.touch id) :=
  h.act rfl (by rw [hsame]; exact (h.reflected id).of_ne rfl Iff.rfl)
    (fun _ _ => ⟨rfl, Iff.rfl⟩) rfl

theorem Session.Refines.put (h : s.Refines start p) {a : A}
    (hbase : (action (s.entry id)).base = (s.entry id).base)
    (hworking : (action (s.entry id)).working = some a)
    (hchanges : (action (s.entry id)).hasChanges = true) :
    (s.act id action).Refines start (p.put id a) := by
  refine h.act rfl ?_ (fun q hq => ⟨OrdMap.find?_insert_of_ne _ hq a, ?_⟩) rfl
  · exact (h.reflected id).of_changed hbase
      (hworking.trans (OrdMap.find?_insert_self p.aggregates id a).symm) hchanges List.mem_cons_self
  · exact List.mem_cons.trans (or_iff_right hq)

theorem Session.Refines.take (h : s.Refines start p)
    (hbase : (action (s.entry id)).base = (s.entry id).base)
    (hworking : (action (s.entry id)).working = none)
    (hchanges : (action (s.entry id)).hasChanges = true) :
    (s.act id action).Refines start (p.take id) := by
  refine h.act rfl ?_ (fun q hq => ⟨OrdMap.find?_erase_of_ne _ hq, ?_⟩) rfl
  · exact (h.reflected id).of_changed hbase
      (hworking.trans (OrdMap.find?_erase_self p.aggregates id).symm) hchanges List.mem_cons_self
  · exact List.mem_cons.trans (or_iff_right hq)

theorem Session.Refines.force (h : s.Refines start p) (id : AggregateId) :
    (s.act id Entry.force).Refines start (p.force id) := by
  have hentry := h.reflected id
  have hthere : (s.entry id).working.isSome = p.aggregates.contains id := by
    rw [hentry.working, OrdMap.contains]
  refine h.act rfl ?_ (fun q hq => ⟨rfl, ?_⟩) rfl
  · rw [Entry.force, Plain.force, hthere]
    split
    · exact hentry.of_changed rfl hentry.working (Bool.or_true _) List.mem_cons_self
    · exact hentry.of_ne rfl Iff.rfl
  · rw [Plain.force]
    split
    · exact List.mem_cons.trans (or_iff_right hq)
    · exact Iff.rfl

/-- **What others do** keeps the refinement if nothing is committed. -/
theorem Session.Refines.meanwhile (h : s.Refines start p) (store : Store A)
    (hstore : store.aggregates = s.store.aggregates) :
    Refines start { s with store := store } { p with locks := store.locks } where
  aggregates := hstore.trans h.aggregates
  locks := rfl
  id := h.id
  reflected id := by
    have hentry : entry { s with store := store } id = s.entry id := by
      rw [entry, Store.entry, Store.get?, hstore]
      rfl
    rw [hentry]
    exact (h.reflected id).of_ne rfl Iff.rfl
  touched := h.touched

/-! ### Requests keep the refinement -/

/-- An operation has the answer of the map, and does the same to it. -/
theorem Session.Refines.operate (h : s.Refines start p) (o : Operation A) :
    (s.perform (.operate o)).1 = (p.perform start start.nextTx (.operate o)).1 ∧
      (s.perform (.operate o)).2.Refines start (p.perform start start.nextTx (.operate o)).2 := by
  have hworking := (h.reflected o.target).working
  rw [perform, hworking]
  cases o with
  | get id => exact ⟨rfl, h.touch rfl⟩
  | update id change =>
    rw [Operation.target] at hworking ⊢
    rw [Plain.perform]
    cases hfind : p.aggregates.find? id with
    | none =>
      refine ⟨rfl, h.touch ?_⟩
      rw [Operation.action, Entry.update, hworking, hfind]
    | some a =>
      refine ⟨rfl, h.put (Operation.base_action _ _) ?_ ?_⟩ <;>
        rw [Operation.action, Entry.update, hworking, hfind]
      rfl
  | insert a =>
    rw [Operation.target] at hworking ⊢
    rw [Plain.perform]
    cases hfind : p.aggregates.find? (Aggregate.id a) with
    | some b =>
      refine ⟨rfl, h.touch ?_⟩
      rw [Operation.action, Entry.insert, hworking, hfind]
    | none =>
      refine ⟨rfl, h.put (Operation.base_action _ _) ?_ ?_⟩ <;>
        rw [Operation.action, Entry.insert, hworking, hfind]
      rfl
  | remove id =>
    rw [Operation.target] at hworking ⊢
    rw [Plain.perform]
    cases hfind : p.aggregates.find? id with
    | none =>
      refine ⟨rfl, h.touch ?_⟩
      rw [Operation.action, Entry.remove, hworking, hfind]
    | some a =>
      refine ⟨rfl, h.take (Operation.base_action _ _) ?_ ?_⟩ <;>
        rw [Operation.action, Entry.remove, hworking, hfind]
      rfl

/-- So has the request to increment a version in any case. -/
theorem Session.Refines.lockAndIncrement (h : s.Refines start p) (id : AggregateId) :
    (s.perform (.lockAndIncrement id)).1 =
        (p.perform start start.nextTx (.lockAndIncrement id)).1 ∧
      (s.perform (.lockAndIncrement id)).2.Refines start
        (p.perform start start.nextTx (.lockAndIncrement id)).2 := by
  rw [perform, Plain.perform, Store.lock, h.locks, h.id]
  cases p.locks.acquire id start.nextTx .exclusive with
  | error e => exact ⟨rfl, h⟩
  | ok locks =>
    exact ⟨rfl, (h.meanwhile { s.store with locks := locks } rfl).force id⟩

/-- **Every request** has the answer of the map, and keeps the refinement. -/
theorem Session.Refines.perform (h : s.Refines start p) (r : Request A) :
    (s.perform r).1 = (p.perform start start.nextTx r).1 ∧
      (s.perform r).2.Refines start (p.perform start start.nextTx r).2 := by
  cases r with
  | operate o => exact h.operate o
  | lockAndIncrement id => exact h.lockAndIncrement id
  | pendingVersion id =>
    refine ⟨?_, h.touch rfl⟩
    rw [Session.perform, Plain.perform, (h.reflected id).pendingVersion]

/-- **A whole run** has the answers of the map, and keeps the refinement. -/
theorem Session.Refines.run (h : s.Refines start p) (occurrences : List (Occurrence A)) :
    (s.run occurrences).1 = (p.run start start.nextTx occurrences).1 ∧
      (s.run occurrences).2.Refines start (p.run start start.nextTx occurrences).2 := by
  induction occurrences generalizing s p with
  | nil => exact ⟨rfl, h⟩
  | cons first rest ih =>
    cases first with
    | request r =>
      obtain ⟨hanswer, hnext⟩ := h.perform r
      obtain ⟨hanswers, hlast⟩ := ih hnext
      exact ⟨List.cons_eq_cons.mpr ⟨hanswer, hanswers⟩, hlast⟩
    | meanwhile around => exact ih (h.meanwhile _ rfl)

/-- At the start nothing was asked for. -/
theorem Session.refines_begin (start : Store A) :
    (Session.begin start).Refines start (Plain.ofStore start) where
  aggregates := rfl
  locks := rfl
  id := rfl
  reflected _ := ⟨rfl, rfl, iff_of_false Bool.false_ne_true List.not_mem_nil, fun _ => rfl⟩
  touched _ := iff_of_false Bool.false_ne_true List.not_mem_nil

/-! ### The commit -/

omit [Aggregate A] in
/-- The versions of a committed transaction are those that were pending. -/
theorem Transaction.find?_versions (tx : Transaction A) (id : AggregateId) :
    tx.versions.find? id = (tx.entries.find? id).bind Entry.pendingVersion := by
  have hascending := tx.entries.ascending
  have hpairs : (tx.entries.entries.filterMap fun e => e.2.pendingVersion.map (e.1, ·)).Pairwise
      fun a b => compare a.1 b.1 = .lt := by
    refine hascending.filterMap _ fun e e' hlt a ha b hb => ?_
    obtain ⟨_, -, rfl⟩ := Option.map_eq_some_iff.mp ha
    obtain ⟨_, -, rfl⟩ := Option.map_eq_some_iff.mp hb
    exact hlt
  rw [versions, OrdMap.ofList, OrdMap.find?_foldl_insert hpairs,
    OrdMap.lookup_filterMap hascending, OrdMap.find?_empty, Option.or_none]
  rfl

/-- **What an entry reflects is written.** -/
theorem Plain.Reflected.written (h : p.Reflected start id e) (hchanges : e.hasChanges = true) :
    e.written = p.get? start id := by
  have hpending := h.pendingVersion
  have hchanged : id ∈ p.changed := h.changes.mp hchanges
  rw [Entry.written, hpending, version?, h.working, get?]
  cases p.aggregates.find? id with
  | none => rfl
  | some a => simp [hchanged]

/-- What was not changed has the version that it had. -/
theorem Plain.Reflected.get?_of_not_changed (h : p.Reflected start id e) (hnot : id ∉ p.changed) :
    p.get? start id = start.get? id := by
  rw [get?, h.same hnot]
  simp [hnot]

namespace Session

/-- The transaction has an entry for what it was asked for, and the others are as they were
found. -/
theorem find?_eq_some {entry : Entry A} (h : s.tx.entries.find? id = some entry) :
    s.entry id = entry := by
  rw [Session.entry, Store.entry, Transaction.entry, h, Option.getD_some]

/-- As long as nobody else commits, there is no conflict. -/
theorem Refines.conflict?_eq_none (h : s.Refines start p) : s.store.conflict? s.tx = none := by
  rw [Store.conflict?, List.findSome?_eq_none_iff]
  rintro ⟨id, e⟩ hmem
  have hentry : s.entry id = e := find?_eq_some (OrdMap.find?_eq_some_iff.mpr hmem)
  have hbase : s.store.version? id = e.base := by
    rw [Store.version?, Store.get?, h.aggregates, ← hentry, (h.reflected id).base]
    rfl
  simp [hbase]

/-- **What is committed is what the map has.** -/
theorem Refines.get?_of_commit (h : s.Refines start p) {versions : VersionMap} {store : Store A}
    (hcommit : s.store.commit s.tx = .ok (versions, store)) (id : AggregateId) :
    store.get? id = p.get? start id := by
  rw [Store.get?_of_commit hcommit id]
  have hentry := h.reflected id
  have hstart : s.store.get? id = start.get? id := by rw [Store.get?, h.aggregates, Store.get?]
  by_cases hchanged : id ∈ p.changed
  · have hchanges : (s.entry id).hasChanges = true := hentry.changes.mpr hchanged
    cases hfind : s.tx.entries.find? id with
    | none =>
      -- an entry that is only going to be made has no changes
      rw [entry, Store.entry, Transaction.entry, hfind] at hchanges
      exact Bool.noConfusion hchanges
    | some e =>
      rw [find?_eq_some hfind] at hentry hchanges
      rw [Option.filter_some, if_pos hchanges]
      exact hentry.written hchanges
  · rw [hentry.get?_of_not_changed hchanged, ← hstart]
    cases hfind : s.tx.entries.find? id with
    | none => rfl
    | some e =>
      rw [find?_eq_some hfind] at hentry
      rw [Option.filter_some, if_neg fun hchanges => hchanged (hentry.changes.mp hchanges)]
      rfl

theorem Refines.find?_versions (h : s.Refines start p) (id : AggregateId) :
    s.tx.versions.find? id = if id ∈ p.touched then p.version? start id else none := by
  rw [Transaction.find?_versions]
  cases hfind : s.tx.entries.find? id with
  | none =>
    rw [if_neg fun htouched => ?_]
    · rfl
    · have := (h.touched id).mpr htouched
      rw [hfind] at this
      exact Bool.noConfusion this
  | some e =>
    rw [if_pos ((h.touched id).mp (by rw [hfind]; rfl)), Option.bind_some,
      ← (h.reflected id).pendingVersion, find?_eq_some hfind]

end Session

/-- What is to be committed has the version that the map gives it. -/
theorem Plain.Reflected.version_get? [LawfulAggregate A] (h : p.Reflected start id e) :
    (p.get? start id).map Aggregate.version = p.version? start id := by
  by_cases hchanged : id ∈ p.changed
  · rw [get?, version?, Option.map_map]
    refine congrArg (Option.map · _) (funext fun a => ?_)
    simp [hchanged, LawfulAggregate.version_withVersion]
  · rw [h.get?_of_not_changed hchanged, version?, h.same hchanged]
    cases hget : start.get? id with
    | none => rfl
    | some a => simp [versionAfter, Store.version?, hget, hchanged]

namespace Session

/-- **A transaction is a plain map in which everything is done at once.** Whatever a transaction is
asked for, in whatever order, and whatever others do meanwhile that commits nothing: it answers what
the map answers, and its commit succeeds. What is committed then is what the map has, where
everything that was changed has one new version, and all else is as it was. The version that was
pending, the one that the commit tells of, and the one in the store are the same. -/
theorem commit_run [LawfulAggregate A] (start : Store A) (occurrences : List (Occurrence A))
    {answers answers' : List (Answer A)} {s : Session A} {p : Plain A}
    (hs : (begin start).run occurrences = (answers, s))
    (hp : (Plain.ofStore start).run start start.nextTx occurrences = (answers', p)) :
    answers = answers' ∧ ∃ versions store, s.store.commit s.tx = .ok (versions, store) ∧
      (∀ id, store.get? id = p.get? start id) ∧
      (∀ id ∉ p.changed, store.get? id = start.get? id) ∧
      (∀ id, store.version? id = p.version? start id) ∧
      (∀ id, (s.perform (.pendingVersion id)).1 = .version (p.version? start id)) ∧
      ∀ id, versions.find? id = if id ∈ p.touched then p.version? start id else none := by
  have hrun := (refines_begin start).run occurrences
  rw [hs, hp] at hrun
  obtain ⟨hanswers, hlast⟩ := hrun
  have hcommit : ∃ store, s.store.commit s.tx = .ok (s.tx.versions, store) := by
    rw [Store.commit, hlast.conflict?_eq_none]
    exact ⟨_, rfl⟩
  obtain ⟨store, hcommit⟩ := hcommit
  refine ⟨hanswers, s.tx.versions, store, hcommit, hlast.get?_of_commit hcommit,
    fun id hnot => ?_, fun id => ?_, fun id => ?_, hlast.find?_versions⟩
  · rw [hlast.get?_of_commit hcommit id, (hlast.reflected id).get?_of_not_changed hnot]
  · rw [Store.version?, hlast.get?_of_commit hcommit id, (hlast.reflected id).version_get?]
  · exact congrArg Answer.version (hlast.reflected id).pendingVersion

/-- A store with an authority that was changed three times. -/
def thirdVersion : Store CertificateAuthority where
  aggregates := OrdMap.empty.insert 1 { CertificateAuthority.create 1 "ca" (Uuid.ofNat 7) with
    version := 3 }
  locks := OrdMap.empty
  nextId := 2
  nextTx := 2

/-- The authority is removed and added again, and is to be incremented besides; a second one is
added and removed. One request of each kind fails. -/
def restoring : List (Occurrence CertificateAuthority) :=
  let ca := CertificateAuthority.create 1 "ca" (Uuid.ofNat 7)
  [.request (.operate (.remove 1)), .request (.operate (.update 1 fun ca => ca.markUpdated)),
    .request (.operate (.insert ca)), .request (.operate (.insert ca)),
    .meanwhile { thirdVersion with nextTx := 5 }, .request (.lockAndIncrement 1),
    .request (.operate (.insert { ca with id := 2 })), .request (.operate (.remove 2)),
    .request (.pendingVersion 1)]

theorem commit_run_restoring :
    ∃ (s : Session CertificateAuthority) (versions : VersionMap)
      (store : Store CertificateAuthority),
      (begin thirdVersion).run restoring = ([.found (thirdVersion.get? 1), .done false, .done true,
        .done false, .lock (.ok ()), .done true,
        .found (some { CertificateAuthority.create 1 "ca" (Uuid.ofNat 7) with id := 2 }),
        .version (some 4)], s) ∧
      s.store.commit s.tx = .ok (versions, store) ∧ store.version? 1 = some 4 ∧
      versions.find? 1 = some 4 ∧ store.get? 2 = none ∧ store.get? 3 = thirdVersion.get? 3 := by
  obtain ⟨hanswers, versions, store, hcommit, hget, hsame, hversion, -, hversions⟩ :=
    commit_run thirdVersion restoring (s := ((begin thirdVersion).run restoring).2)
      (p := ((Plain.ofStore thirdVersion).run thirdVersion thirdVersion.nextTx restoring).2) rfl rfl
  refine ⟨_, versions, store, Prod.ext (hanswers.trans ?_) rfl, hcommit, (hversion 1).trans ?_,
    (hversions 1).trans ?_, (hget 2).trans ?_, hsame 3 ?_⟩ <;> decide +kernel

end Session

end Refinement

end RpkiAuthority
