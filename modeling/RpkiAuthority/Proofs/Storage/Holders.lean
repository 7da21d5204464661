import RpkiAuthority.Proofs.Collection.Lookup
import RpkiAuthority.Storage.Locks

/-!
# Who holds a lock

The holders of locks on one aggregate are known by who holds what. A lock is admitted unless another
transaction holds one that excludes it (`Holders.admits_iff`), and two equivalences say who holds
what after a grant (`Holders.holds_grant`) and after a release (`Holders.holds_release`). So an
exclusive lock stands alone (`Holders.Alone`), and a grant leaves no trace once its transaction is
struck out (`Holders.release_grant`).
-/

namespace RpkiAuthority

namespace LockMode

/-- Whether who holds a lock of the first mode holds one of at least the second. -/
def Covers : LockMode → LockMode → Prop
  | exclusive, _ => True
  | shared, mode => mode = shared

/-- The weakest lock of another transaction that excludes one of the mode. -/
def excludedBy : LockMode → LockMode
  | shared => exclusive
  | exclusive => shared

theorem covers_shared (mode : LockMode) : mode.Covers shared := by
  cases mode with
  | shared => exact rfl
  | exclusive => exact trivial

end LockMode

namespace Holders

variable {h : Holders} {tx other : TxId} {mode m : LockMode}

/-- Whether a transaction holds a lock of any kind. -/
def involves (h : Holders) (tx : TxId) : Prop := h.exclusive = some tx ∨ h.shared.contains tx = true

theorem holds_exclusive_iff : h.holds tx .exclusive = true ↔ h.exclusive = some tx := by
  rw [holds, beq_iff_eq]

theorem holds_shared_iff : h.holds tx .shared = true ↔ h.involves tx := by
  rw [holds, Bool.or_eq_true, beq_iff_eq, involves]

/-- An exclusive lock counts as a shared one. -/
theorem involves_of_holds (hold : h.holds tx mode = true) : h.involves tx := by
  cases mode with
  | shared => exact holds_shared_iff.mp hold
  | exclusive => exact Or.inl (holds_exclusive_iff.mp hold)

/-- Nobody holds no lock. -/
theorem holds_none (tx : TxId) (mode : LockMode) : none.holds tx mode = false := by
  cases mode <;> rfl

theorem not_involves_none (tx : TxId) : ¬none.involves tx := by
  rw [← holds_shared_iff, holds_none]
  exact Bool.false_ne_true

theorem eq_none_of_isFree (hf : h.isFree = true) : h = none := by
  rw [isFree, Bool.and_eq_true, Option.isNone_iff_eq_none] at hf
  obtain ⟨he, hs⟩ := hf
  have hshared : h.shared = OrdMap.empty := OrdMap.eq_empty_of_isEmpty hs
  cases h
  simp_all [none]

theorem isFree_iff : h.isFree = true ↔ ∀ tx, ¬h.involves tx := by
  constructor
  · intro hf tx
    rw [eq_none_of_isFree hf]
    exact not_involves_none tx
  · intro hno
    rw [isFree, Bool.and_eq_true, Option.isNone_iff_eq_none]
    constructor
    · cases he : h.exclusive with
      | none => rfl
      | some tx => exact absurd (Or.inl he) (hno tx)
    · cases hs : h.shared.entries with
      | nil => exact List.isEmpty_iff.mpr hs
      | cons e rest =>
        refine absurd (Or.inr ?_) (hno e.1)
        rw [OrdMap.contains_iff, OrdMap.keys, hs]
        exact List.mem_cons_self

/-! ### What is admitted -/

theorem noOtherExclusive_iff :
    h.noOtherExclusive tx = true ↔ ∀ other, h.exclusive = some other → other = tx := by
  rw [noOtherExclusive, Bool.or_eq_true, Option.isNone_iff_eq_none, beq_iff_eq]
  cases h.exclusive with
  | none => simp
  | some n => simp

/-- **A lock is admitted** unless another transaction holds one that excludes it. -/
theorem admits_iff :
    h.admits tx mode = true ↔ ∀ other, h.holds other mode.excludedBy = true → other = tx := by
  cases mode with
  | shared => simp only [admits, noOtherExclusive_iff, LockMode.excludedBy, holds_exclusive_iff]
  | exclusive =>
    simp only [admits, Bool.and_eq_true, noOtherExclusive_iff, List.all_eq_true, beq_iff_eq,
      LockMode.excludedBy, holds_shared_iff, involves, OrdMap.contains_iff]
    constructor
    · rintro ⟨hex, hsh⟩ other (ho | ho)
      · exact hex other ho
      · exact hsh other ho
    · exact fun ho =>
        ⟨fun other hex => ho other (Or.inl hex), fun other hsh => ho other (Or.inr hsh)⟩

/-- Who is admitted exclusively is the only one to hold a lock. -/
theorem eq_of_admits_exclusive (ha : h.admits tx .exclusive = true)
    (hold : h.holds other m = true) : other = tx :=
  admits_iff.mp ha other (holds_shared_iff.mpr (involves_of_holds hold))

/-! ### Grants -/

/-- **Who holds what after a grant**: what was held before, and what was granted. -/
theorem holds_grant (ha : h.admits tx mode = true) :
    (h.grant tx mode).holds other m = true ↔
      h.holds other m = true ∨ other = tx ∧ mode.Covers m := by
  cases mode with
  | shared =>
    rw [grant]
    split
    · next hex =>
      -- the exclusive holder has what it asks for
      refine (or_iff_left_of_imp ?_).symm
      rintro ⟨rfl, rfl⟩
      exact holds_shared_iff.mpr (Or.inl hex)
    · cases m with
      | exclusive => simp [holds_exclusive_iff, LockMode.Covers]
      | shared =>
        simp only [holds_shared_iff, involves, OrdSet.contains_add_iff, LockMode.Covers, and_true]
        rw [or_assoc, or_comm (a := other = tx)]
  | exclusive =>
    have hnow : (h.grant tx .exclusive).holds other m = true ↔ other = tx := by
      cases m with
      | exclusive =>
        rw [holds_exclusive_iff, grant, Option.some.injEq, eq_comm]
      | shared =>
        rw [holds_shared_iff, involves, grant, Option.some.injEq, eq_comm, or_iff_left_iff_imp]
        exact fun hsh => eq_of_admits_exclusive ha
          (holds_shared_iff.mpr (Or.inr (OrdMap.contains_erase_iff.mp hsh).2))
    rw [hnow]
    exact ⟨fun ho => Or.inr ⟨ho, trivial⟩,
      fun ho => ho.elim (eq_of_admits_exclusive ha) And.left⟩

/-- Who is involved after a lock was granted: those before and the one it was granted to. -/
theorem involves_grant (ha : h.admits tx mode = true) :
    (h.grant tx mode).involves other ↔ h.involves other ∨ other = tx := by
  rw [← holds_shared_iff, holds_grant ha, holds_shared_iff, and_iff_left mode.covers_shared]

/-! ### Releases -/

/-- Striking out a transaction that holds nothing changes nothing. -/
theorem release_eq_self (hno : ¬h.involves tx) : h.release tx = h := by
  have hex : h.exclusive ≠ some tx := fun he => hno (Or.inl he)
  have hsh : h.shared.contains tx = false := Bool.eq_false_iff.mpr fun hc => hno (Or.inr hc)
  rw [release, if_neg hex, OrdMap.erase_eq_self hsh]

/-- **Who holds what after a release**: what was held before, and by others. -/
theorem holds_release :
    (h.release tx).holds other m = true ↔ h.holds other m = true ∧ other ≠ tx := by
  have hex : (h.release tx).exclusive = some other ↔ h.exclusive = some other ∧ other ≠ tx := by
    rw [release]
    split
    · next he =>
      simp only [reduceCtorEq, false_iff, not_and, ne_eq, Classical.not_not]
      exact fun ho => Option.some.inj (ho.symm.trans he)
    · next he =>
      refine (and_iff_left_of_imp ?_).symm
      rintro ho rfl
      exact he ho
  cases m with
  | exclusive => rw [holds_exclusive_iff, holds_exclusive_iff, hex]
  | shared =>
    rw [holds_shared_iff, holds_shared_iff, involves, involves, hex, release,
      OrdMap.contains_erase_iff, or_and_right, and_comm (a := other ≠ tx)]

/-- Striking out a transaction strikes out no other one. -/
theorem involves_release : (h.release tx).involves other ↔ h.involves other ∧ other ≠ tx := by
  rw [← holds_shared_iff, holds_release, holds_shared_iff]

/-- **A grant leaves no trace**: striking out the transaction afterwards gives what striking it out
before would have given, as long as no other transaction stood in the way. -/
theorem release_grant (ha : h.admits tx mode = true) :
    (h.grant tx mode).release tx = h.release tx := by
  cases mode with
  | shared =>
    rw [grant]
    split
    · rfl
    · rw [release, release, OrdSet.add, OrdMap.erase_insert]
  | exclusive =>
    -- the exclusive holder, if any, is the transaction itself
    have hex : (if h.exclusive = some tx then Option.none else h.exclusive) = Option.none := by
      split
      · rfl
      · next hne =>
        rw [Option.eq_none_iff_forall_ne_some]
        rintro n hn
        exact hne (eq_of_admits_exclusive ha (holds_exclusive_iff.mpr hn) ▸ hn)
    rw [grant, release, release, if_pos rfl, hex, OrdMap.erase_erase]

/-! ### Exclusive locks -/

/-- **An exclusive lock stands alone**: its holder is the only one. -/
def Alone (h : Holders) : Prop :=
  ∀ tx other m, h.holds tx .exclusive = true → h.holds other m = true → other = tx

theorem alone_none : none.Alone := fun tx _ _ hold =>
  absurd hold (by rw [holds_none]; exact Bool.false_ne_true)

/-- A grant keeps an exclusive lock alone, because it was admitted. -/
theorem Alone.grant (h' : h.Alone) (ha : h.admits tx mode = true) : (h.grant tx mode).Alone := by
  intro n other m hn ho
  rw [holds_grant ha] at hn ho
  rcases hn with hn | ⟨rfl, hmode⟩
  · rcases ho with ho | ⟨rfl, -⟩
    · exact h' n other m hn ho
    · -- who is granted a lock beside an exclusive one is its holder
      refine (admits_iff.mp ha n ?_).symm
      cases mode with
      | shared => exact hn
      | exclusive => exact holds_shared_iff.mpr (involves_of_holds hn)
  · rcases ho with ho | ⟨rfl, -⟩
    · cases mode with
      | shared => exact LockMode.noConfusion hmode
      | exclusive => exact eq_of_admits_exclusive ha ho
    · rfl

theorem Alone.release (h' : h.Alone) : (h.release tx).Alone := fun n other m hn ho =>
  h' n other m (holds_release.mp hn).1 (holds_release.mp ho).1

end Holders

end RpkiAuthority
