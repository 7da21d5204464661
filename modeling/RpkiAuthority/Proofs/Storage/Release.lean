import RpkiAuthority.Proofs.Storage.Holders
import RpkiAuthority.Storage.Store

/-!
# Releasing locks

A transaction takes locks one by one and gives them back all at once. Two equivalences say who holds
what after a lock was granted (`LockTable.holds_acquire`) and after all were released
(`LockTable.holds_releaseAll`).

What a transaction did to the table is measured by the table without it: striking out the
transaction gives the same table before and after a lock was granted to it
(`LockTable.releaseAll_acquire`). Whatever the transaction took meanwhile, the table it leaves
behind is the one it found, as soon as that one was **tidy** (`LockTable.Tidy`): no entry without a
holder, and no holder from the future. Every operation of a store keeps its table tidy.
-/

namespace RpkiAuthority

namespace LockTable

variable {t u : LockTable} {id q : AggregateId} {tx n next : TxId} {mode m : LockMode}

theorem holders_insert (t : LockTable) (id q : AggregateId) (h : Holders) :
    LockTable.holders (t.insert id h) q = if q = id then h else t.holders q := by
  split
  · next hq => rw [hq, holders, OrdMap.find?_insert_self, Option.getD_some]
  · next hq => rw [holders, OrdMap.find?_insert_of_ne _ hq, holders]

theorem find?_releaseAll (t : LockTable) (tx : TxId) (id : AggregateId) :
    OrdMap.find? (t.releaseAll tx) id =
      ((t.find? id).map fun h => h.release tx).filter fun h => !h.isFree := by
  rw [releaseAll, OrdMap.find?_filter, OrdMap.find?_mapValues]

/-- To release locks is to strike out the transaction for each aggregate. -/
theorem holders_releaseAll (t : LockTable) (tx : TxId) (id : AggregateId) :
    LockTable.holders (t.releaseAll tx) id = (t.holders id).release tx := by
  rw [holders, find?_releaseAll, holders]
  cases t.find? id with
  | none => exact (Holders.release_eq_self (Holders.not_involves_none tx)).symm
  | some h =>
    rw [Option.map_some, Option.filter_some, Option.getD_some]
    split
    · rfl
    · next hfree =>
      -- an entry without holders is dropped
      rw [Bool.not_eq_true, Bool.not_eq_false'] at hfree
      rw [Holders.eq_none_of_isFree hfree]
      rfl

/-- **What a release does**: others hold what they held. -/
theorem holds_releaseAll : LockTable.holds (t.releaseAll tx) q n m = true ↔
    t.holds q n m = true ∧ n ≠ tx := by
  rw [holds, holders_releaseAll, Holders.holds_release, holds]

/-- What is granted is entered for the aggregate and for nothing else. -/
theorem acquire_eq_ok_iff : t.acquire id tx mode = .ok u ↔
    (t.holders id).admits tx mode = true ∧ u = t.insert id ((t.holders id).grant tx mode) := by
  rw [acquire, acquire?]
  by_cases ha : (t.holders id).admits tx mode = true
  · simp [ha, eq_comm]
  · simp [ha]

/-- **What a grant does**: what was held is held, and what was granted. -/
theorem holds_acquire (h : t.acquire id tx mode = .ok u) : u.holds q n m = true ↔
    t.holds q n m = true ∨ q = id ∧ n = tx ∧ mode.Covers m := by
  obtain ⟨ha, rfl⟩ := acquire_eq_ok_iff.mp h
  rw [holds, holders_insert, holds]
  split
  · next hq =>
    subst hq
    rw [Holders.holds_grant ha, and_iff_right rfl]
  · next hq => simp [hq]

/-- **A lock granted leaves no trace** once its transaction is struck out. -/
theorem releaseAll_acquire (h : t.acquire id tx mode = .ok u) :
    u.releaseAll tx = t.releaseAll tx := by
  obtain ⟨ha, rfl⟩ := acquire_eq_ok_iff.mp h
  refine OrdMap.ext_find? fun q => ?_
  rw [find?_releaseAll, find?_releaseAll]
  by_cases hq : q = id
  · subst hq
    rw [OrdMap.find?_insert_self, Option.map_some, Holders.release_grant ha, holders]
    cases t.find? q with
    | none =>
      -- nobody held a lock, and nobody does when the transaction is struck out again
      have hfree : (Holders.none.release tx).isFree = true := by
        rw [Holders.release_eq_self (Holders.not_involves_none tx)]
        rfl
      simp [hfree]
    | some h => simp
  · rw [OrdMap.find?_insert_of_ne _ hq]

/-- A lock on what nobody holds a lock on is granted. -/
theorem acquire_of_find?_eq_none (h : t.find? id = none) (tx : TxId) (mode : LockMode) :
    t.acquire id tx mode = .ok (t.insert id (Holders.none.grant tx mode)) := by
  have hholders : t.holders id = Holders.none := by
    rw [holders, h, Option.getD_none]
  refine acquire_eq_ok_iff.mpr ⟨?_, by rw [hholders]⟩
  rw [hholders]
  cases mode <;> rfl

/-! ### Tidy tables -/

/-- **A tidy table** lists an aggregate only while someone holds a lock on it, and every holder is a
transaction that has begun. -/
structure Tidy (t : LockTable) (next : TxId) : Prop where
  held : ∀ {id h}, t.find? id = some h → h.isFree = false
  begun : ∀ id {tx}, (t.holders id).involves tx → tx < next

/-- In a tidy table nothing is held by a transaction that has not begun. -/
theorem Tidy.holds_eq_false (ht : t.Tidy next) (hle : next ≤ tx) (id : AggregateId)
    (mode : LockMode) : t.holds id tx mode = false := by
  rw [Bool.eq_false_iff]
  intro hold
  exact absurd (ht.begun _ (Holders.involves_of_holds hold)) (Nat.not_lt.mpr hle)

/-- **A transaction that has not begun can be struck out of a tidy table** without changing it. -/
theorem Tidy.releaseAll_eq_self (ht : t.Tidy next) (hle : next ≤ tx) : t.releaseAll tx = t := by
  refine OrdMap.ext_find? fun id => ?_
  rw [find?_releaseAll]
  cases hfind : t.find? id with
  | none => rfl
  | some h =>
    -- whoever holds a lock has begun
    have hno : ¬h.involves tx := by
      intro hin
      refine absurd (ht.begun id ?_) (Nat.not_lt.mpr hle)
      rwa [holders, hfind]
    simp [Holders.release_eq_self hno, ht.held hfind]

/-- **A transaction that has not taken a lock yet gets none that others hold.** -/
theorem Tidy.acquire_eq_error (ht : t.Tidy next) (hle : next ≤ tx) (h : t.contains id = true) :
    t.acquire id tx .exclusive = .error (.lockTimeout id) := by
  obtain ⟨held, hfind⟩ := Option.isSome_iff_exists.mp h
  have hholders : t.holders id = held := by rw [holders, hfind, Option.getD_some]
  have hno : ¬held.involves tx := fun hin =>
    absurd (ht.begun id (hholders ▸ hin)) (Nat.not_lt.mpr hle)
  have hrefused : ¬(t.holders id).admits tx .exclusive = true := by
    rw [hholders]
    intro ha
    -- then nobody else could hold a lock, and so nobody at all
    have hfree : held.isFree = true := Holders.isFree_iff.mpr fun other hother =>
      hno (Holders.eq_of_admits_exclusive ha (Holders.holds_shared_iff.mpr hother) ▸ hother)
    exact Bool.noConfusion ((ht.held hfind).symm.trans hfree)
  rw [acquire, acquire?, if_neg hrefused]

theorem Tidy.mono (ht : t.Tidy next) {later : TxId} (hle : next ≤ later) : t.Tidy later :=
  ⟨ht.held, fun _ _ hin => Nat.lt_of_lt_of_le (ht.begun _ hin) hle⟩

theorem tidy_empty (next : TxId) : Tidy OrdMap.empty next :=
  ⟨fun h => absurd h.symm (Option.some_ne_none _),
    fun _ _ h => absurd h (Holders.not_involves_none _)⟩

/-- Granting a lock to a transaction that has begun keeps a table tidy. -/
theorem Tidy.acquire (ht : t.Tidy next) (htx : tx < next) (h : t.acquire id tx mode = .ok u) :
    u.Tidy next := by
  obtain ⟨ha, rfl⟩ := acquire_eq_ok_iff.mp h
  constructor
  · intro q g hfind
    by_cases hq : q = id
    · subst hq
      rw [OrdMap.find?_insert_self] at hfind
      obtain rfl := Option.some.inj hfind
      rw [Bool.eq_false_iff]
      intro hfree
      exact Holders.isFree_iff.mp hfree tx ((Holders.involves_grant ha).mpr (Or.inr rfl))
    · rw [OrdMap.find?_insert_of_ne _ hq] at hfind
      exact ht.held hfind
  · intro q other hin
    rw [holders_insert] at hin
    split at hin
    · rcases (Holders.involves_grant ha).mp hin with hin | rfl
      · exact ht.begun _ hin
      · exact htx
    · exact ht.begun _ hin

/-- Releasing locks keeps a table tidy. -/
theorem Tidy.releaseAll (ht : t.Tidy next) (tx : TxId) : Tidy (t.releaseAll tx) next := by
  constructor
  · intro q h hfind
    rw [find?_releaseAll, Option.filter_eq_some_iff] at hfind
    simpa using hfind.2
  · intro q other hin
    rw [holders_releaseAll] at hin
    exact ht.begun q (Holders.involves_release.mp hin).1

end LockTable

/-- A lock that is granted changes nothing but the locks. -/
theorem Store.kept_of_lock {A : Type} {s s' : Store A} {id : AggregateId} {n : TxId}
    {mode : LockMode} (h : s.lock id n mode = .ok s') :
    s'.aggregates = s.aggregates ∧ s'.nextTx = s.nextTx := by
  rw [lock] at h
  cases hlocks : s.locks.acquire id n mode with
  | error e =>
    rw [hlocks] at h
    exact absurd h (by simp [Except.map])
  | ok locks =>
    rw [hlocks] at h
    obtain rfl := Except.ok.inj h
    exact ⟨rfl, rfl⟩

/-- The lock table of a store is tidy. -/
def Store.Tidy {A : Type} (s : Store A) : Prop := s.locks.Tidy s.nextTx

end RpkiAuthority
