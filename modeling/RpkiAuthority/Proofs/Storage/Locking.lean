import Mathlib.Data.List.Induction
import RpkiAuthority.Proofs.Storage.Release

/-!
# Locks exclude each other

Transactions ask for locks and release them all at once, in any order (`LockMove`). A transaction
that waits for a lock asks for it again whenever locks are released; it is granted the lock with the
first request that is not refused, or its time runs out after one that is.

What the table then says is told by the moves alone (`LockTable.after_excludes`). A transaction
holds a lock exactly if one at least as strong was granted to it and it has not released its locks
since, whatever others did and whatever weaker lock it asked for later. No two transactions hold
locks that exclude each other, a request is refused exactly if granting it would make this happen,
and the table lists exactly what somebody holds a lock on.

It all comes from two equivalences, which say who holds what after a grant
(`LockTable.holds_acquire`) and after a release (`LockTable.holds_releaseAll`).
-/

namespace RpkiAuthority

/-- What can happen to a table of locks. -/
inductive LockMove where
  /-- A transaction asks for a lock. -/
  | ask (id : AggregateId) (tx : TxId) (mode : LockMode)
  | releaseAll (tx : TxId)
  deriving DecidableEq

/-! ### The table -/

namespace LockTable

variable {t u : LockTable} {id q : AggregateId} {tx n : TxId} {mode m : LockMode}
  {move : LockMove} {moves : List LockMove}

/-- What a move makes of the table. One who is refused a lock leaves it as it is. -/
def perform (t : LockTable) : LockMove → LockTable
  | .ask id tx mode =>
    match t.acquire id tx mode with
    | .ok u => u
    | .error _ => t
  | .releaseAll tx => t.releaseAll tx

/-- The table after some moves. -/
def after (moves : List LockMove) : LockTable := moves.foldl perform OrdMap.empty

/-- Whether a lock is granted. -/
def Grants (t : LockTable) (id : AggregateId) (tx : TxId) (mode : LockMode) : Prop :=
  ∃ u, t.acquire id tx mode = .ok u

/-- **Granted and not released**: a lock at least as strong was granted to the transaction, and it
has not released its locks since. -/
def GrantedSince (moves : List LockMove) (id : AggregateId) (tx : TxId) (mode : LockMode) : Prop :=
  ∃ before granted later, moves = before ++ .ask id tx granted :: later ∧ granted.Covers mode ∧
    (after before).Grants id tx granted ∧ .releaseAll tx ∉ later

theorem after_concat (moves : List LockMove) (move : LockMove) :
    after (moves ++ [move]) = (after moves).perform move := by
  rw [after, List.foldl_append]
  rfl

theorem grants_iff : t.Grants id tx mode ↔ (t.holders id).admits tx mode = true := by
  simp only [Grants, acquire_eq_ok_iff]
  constructor
  · rintro ⟨_, ha, -⟩
    exact ha
  · exact fun ha => ⟨_, ha, rfl⟩

/-- **What a request does**: if it is granted the lock is held besides, and else nothing changes. -/
theorem holds_ask : (t.perform (.ask id tx mode)).holds q n m = true ↔
    t.holds q n m = true ∨ (q = id ∧ n = tx ∧ mode.Covers m) ∧ t.Grants id tx mode := by
  rw [perform]
  cases hacq : t.acquire id tx mode with
  | error e =>
    refine (or_iff_left ?_).symm
    rintro ⟨-, u, hu⟩
    rw [hacq] at hu
    exact nomatch hu
  | ok u =>
    have hgrants : t.Grants id tx mode := ⟨u, hacq⟩
    rw [holds_acquire hacq, and_iff_left hgrants]

theorem acquire_eq_error (h : ¬t.Grants id tx mode) :
    t.acquire id tx mode = .error (.lockTimeout id) := by
  rw [acquire, acquire?, if_neg fun ha => h (grants_iff.mpr ha)]

/-- **A lock is granted** unless another transaction holds one that excludes it. -/
theorem grants_iff_forall : t.Grants id tx mode ↔
    ∀ other, t.holds id other mode.excludedBy = true → other = tx := by
  rw [grants_iff, Holders.admits_iff]
  rfl

/-- **Who is refused changes nothing.** The entry that was looked at was there before, so that none
is left behind. -/
theorem unchanged_of_not_grants (h : ¬t.Grants id tx mode) :
    t.perform (.ask id tx mode) = t ∧ t.insert id (t.holders id) = t := by
  refine ⟨by rw [perform, acquire_eq_error h], ?_⟩
  cases hfind : t.find? id with
  | none => exact absurd ⟨_, acquire_of_find?_eq_none hfind tx mode⟩ h
  | some held =>
    refine OrdMap.ext_find? fun q => ?_
    by_cases hq : q = id
    · rw [hq, OrdMap.find?_insert_self, hfind, holders, hfind, Option.getD_some]
    · rw [OrdMap.find?_insert_of_ne _ hq]

/-! ### Courses of moves -/

/-- On every aggregate an exclusive lock stands alone. -/
theorem alone_after (moves : List LockMove) (id : AggregateId) :
    ((after moves).holders id).Alone := by
  induction moves using List.reverseRecOn with
  | nil => exact Holders.alone_none
  | append_singleton moves move ih =>
    rw [after_concat]
    cases move with
    | ask q tx mode =>
      rw [perform]
      cases hacq : (after moves).acquire q tx mode with
      | error e => exact ih
      | ok u =>
        obtain ⟨ha, rfl⟩ := acquire_eq_ok_iff.mp hacq
        show (LockTable.holders _ id).Alone
        rw [holders_insert]
        split
        · next hid => exact (hid ▸ ih).grant ha
        · exact ih
    | releaseAll tx =>
      rw [perform, holders_releaseAll]
      exact ih.release

theorem grantedSince_concat : GrantedSince (moves ++ [move]) id tx mode ↔
    (GrantedSince moves id tx mode ∧ move ≠ .releaseAll tx) ∨
      ∃ granted, move = .ask id tx granted ∧ granted.Covers mode ∧
        (after moves).Grants id tx granted := by
  constructor
  · rintro ⟨before, granted, later, hmoves, hcovers, hgrants, hkept⟩
    cases later using List.reverseRecOn with
    | nil =>
      obtain ⟨rfl, hmove⟩ := List.append_inj' hmoves rfl
      exact Or.inr ⟨granted, (List.cons.inj hmove).1, hcovers, hgrants⟩
    | append_singleton rest last =>
      rw [← List.cons_append, ← List.append_assoc] at hmoves
      obtain ⟨rfl, hmove⟩ := List.append_inj' hmoves rfl
      obtain rfl := (List.cons.inj hmove).1
      rw [List.mem_append, List.mem_singleton, not_or] at hkept
      exact Or.inl ⟨⟨before, granted, rest, rfl, hcovers, hgrants, hkept.1⟩, Ne.symm hkept.2⟩
  · rintro (⟨⟨before, granted, later, rfl, hcovers, hgrants, hkept⟩, hmove⟩ |
      ⟨granted, rfl, hcovers, hgrants⟩)
    · refine ⟨before, granted, later ++ [move], by simp, hcovers, hgrants, ?_⟩
      rw [List.mem_append, List.mem_singleton, not_or]
      exact ⟨hkept, Ne.symm hmove⟩
    · exact ⟨moves, granted, [], rfl, hcovers, hgrants, List.not_mem_nil⟩

/-- **A lock is held exactly if it was granted and not released.** -/
theorem holds_after (moves : List LockMove) (id : AggregateId) (tx : TxId) (mode : LockMode) :
    (after moves).holds id tx mode = true ↔ GrantedSince moves id tx mode := by
  induction moves using List.reverseRecOn with
  | nil =>
    constructor
    · intro hold
      rw [show (after []).holds id tx mode = Holders.none.holds tx mode from rfl,
        Holders.holds_none] at hold
      exact Bool.noConfusion hold
    · rintro ⟨before, granted, later, hmoves, -⟩
      exact absurd hmoves.symm (by simp)
  | append_singleton moves move ih =>
    rw [after_concat, grantedSince_concat, ← ih]
    cases move with
    | ask q n granted =>
      have hask : LockMove.ask q n granted ≠ .releaseAll tx := nofun
      rw [holds_ask, and_iff_left hask]
      refine or_congr_right ⟨?_, ?_⟩
      · rintro ⟨⟨rfl, rfl, hcovers⟩, hgrants⟩
        exact ⟨granted, rfl, hcovers, hgrants⟩
      · rintro ⟨m, hmove, hcovers, hgrants⟩
        obtain ⟨rfl, rfl, rfl⟩ := LockMove.ask.inj hmove
        exact ⟨⟨rfl, rfl, hcovers⟩, hgrants⟩
    | releaseAll n =>
      have hmove : LockMove.releaseAll n ≠ .releaseAll tx ↔ tx ≠ n :=
        not_congr (LockMove.releaseAll.injEq n tx ▸ eq_comm)
      rw [perform, holds_releaseAll, hmove]
      refine (or_iff_left ?_).symm
      rintro ⟨granted, h, -⟩
      exact nomatch h

/-- The table is tidy: whoever asked for a lock counts as a transaction that has begun. -/
theorem exists_tidy_after (moves : List LockMove) : ∃ next, (after moves).Tidy next := by
  induction moves using List.reverseRecOn with
  | nil => exact ⟨0, tidy_empty 0⟩
  | append_singleton moves move ih =>
    obtain ⟨next, ht⟩ := ih
    rw [after_concat]
    cases move with
    | ask id tx mode =>
      have hlater : (after moves).Tidy (max next (tx + 1)) := ht.mono (Nat.le_max_left _ _)
      refine ⟨max next (tx + 1), ?_⟩
      rw [perform]
      cases hacq : (after moves).acquire id tx mode with
      | error e => exact hlater
      | ok u => exact hlater.acquire (Nat.le_max_right next (tx + 1)) hacq
    | releaseAll tx => exact ⟨next, ht.releaseAll tx⟩

/-- **The table lists what somebody holds a lock on** and nothing else. -/
theorem contains_after (moves : List LockMove) (id : AggregateId) :
    (after moves).contains id = true ↔ ∃ tx, (after moves).holds id tx .shared = true := by
  obtain ⟨next, ht⟩ := exists_tidy_after moves
  rw [OrdMap.contains, Option.isSome_iff_exists]
  constructor
  · rintro ⟨h, hfind⟩
    have hheld : ¬∀ tx, ¬h.involves tx := by
      rw [← Holders.isFree_iff, ht.held hfind]
      exact Bool.false_ne_true
    obtain ⟨tx, htx⟩ := Classical.not_forall_not.mp hheld
    refine ⟨tx, ?_⟩
    rw [holds, holders, hfind, Option.getD_some]
    exact Holders.holds_shared_iff.mpr htx
  · rintro ⟨tx, hold⟩
    rw [holds, holders] at hold
    cases hfind : (after moves).find? id with
    | none =>
      rw [hfind, Option.getD_none, Holders.holds_none] at hold
      exact Bool.noConfusion hold
    | some h => exact ⟨h, rfl⟩

/-- **Locks exclude each other.** Whatever was asked for and released, and in whatever order: who
holds an exclusive lock is the only one to hold a lock; a transaction holds what was granted to it
until it releases its locks, and nothing else; a lock is refused exactly if another transaction
holds one that excludes it; who is refused is told that its time ran out and changes nothing, not
even by an entry for what it asked for; and there are entries for what somebody holds a lock on and
for nothing else. -/
theorem after_excludes (moves : List LockMove) :
    (∀ id tx other mode, (after moves).holds id tx .exclusive = true →
      (after moves).holds id other mode = true → other = tx) ∧
    (∀ id tx mode, (after moves).holds id tx mode = true ↔ GrantedSince moves id tx mode) ∧
    (∀ id tx mode, ¬(after moves).Grants id tx mode ↔
      ∃ other, other ≠ tx ∧ (after moves).holds id other mode.excludedBy = true) ∧
    (∀ id tx mode, ¬(after moves).Grants id tx mode →
      (after moves).acquire id tx mode = .error (.lockTimeout id) ∧
        (after moves).perform (.ask id tx mode) = after moves ∧
        (after moves).insert id ((after moves).holders id) = after moves) ∧
    ∀ id, (after moves).contains id = true ↔ ∃ tx, (after moves).holds id tx .shared = true := by
  refine ⟨fun id tx other mode => alone_after moves id tx other mode, holds_after moves,
    fun id tx mode => ?_, fun id tx mode h => ⟨acquire_eq_error h, unchanged_of_not_grants h⟩,
    contains_after moves⟩
  rw [grants_iff_forall, Classical.not_forall]
  exact exists_congr fun other => by rw [Classical.not_imp, and_comm]

/-- A shared lock is made exclusive once the other holder has released it, and it stays exclusive
when a shared one is asked for. -/
example : (after [.ask 1 7 .shared, .ask 1 8 .shared, .ask 1 7 .exclusive, .releaseAll 8,
    .ask 1 7 .exclusive, .ask 1 7 .shared, .ask 1 8 .shared]).holds 1 7 .exclusive = true := by
  decide

end LockTable

end RpkiAuthority
