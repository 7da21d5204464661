import RpkiAuthority.Proofs.Collection.Lookup
import RpkiAuthority.Storage.Store

/-!
# What a commit writes

A commit writes the copies of a transaction one after the other. Since there is one copy for each
aggregate at most, what is committed afterwards can be said one aggregate at a time
(`Store.get?_of_commit`): what the transaction changed is as its copy has it, at the version that
was pending, and all else is as it was. And a commit that succeeds has found every aggregate that it
changes at the version at which the transaction first looked at it (`Store.version?_of_commit`).
-/

namespace RpkiAuthority

/-- The version that an aggregate is given is the version it has. -/
class LawfulAggregate (A : Type) [Aggregate A] : Prop where
  version_withVersion (v : Nat) (a : A) : Aggregate.version (Aggregate.withVersion v a) = v

namespace Entry

variable {A : Type} (e : Entry A)

/-! ### What can become of a copy -/

@[simp] theorem base_update (change : A → A) : (e.update change).base = e.base := by
  rw [update]
  split <;> rfl

@[simp] theorem base_insert (a : A) : (e.insert a).base = e.base := by
  rw [insert]
  split <;> rfl

@[simp] theorem base_remove : e.remove.base = e.base := by
  rw [remove]
  split <;> rfl

@[simp] theorem base_force : e.force.base = e.base := by
  rw [force]
  split <;> rfl

/-- **What can become of a copy**: it is still known what it was made of, and unless it has changes
it is the same as before. -/
structure LeadsTo (e e' : Entry A) : Prop where
  base : e'.base = e.base
  same : e'.hasChanges = false → e' = e

theorem LeadsTo.refl : e.LeadsTo e := ⟨rfl, fun _ => rfl⟩

theorem leadsTo_update (change : A → A) : e.LeadsTo (e.update change) := by
  refine ⟨e.base_update change, fun h => ?_⟩
  rw [update] at h ⊢
  split <;> simp_all [hasChanges]

theorem leadsTo_insert (a : A) : e.LeadsTo (e.insert a) := by
  refine ⟨e.base_insert a, fun h => ?_⟩
  rw [insert] at h ⊢
  split <;> simp_all [hasChanges]

theorem leadsTo_remove : e.LeadsTo e.remove := by
  refine ⟨e.base_remove, fun h => ?_⟩
  rw [remove] at h ⊢
  split <;> simp_all [hasChanges]

theorem leadsTo_force : e.LeadsTo e.force := by
  refine ⟨e.base_force, fun h => ?_⟩
  rw [force] at h ⊢
  split <;> simp_all [hasChanges]

end Entry

variable {A : Type} [Aggregate A]

/-! ### What is committed of a copy -/

namespace Entry

/-- What is committed of a copy that was changed. -/
def written (e : Entry A) : Option A :=
  match e.working, e.pendingVersion with
  | some a, some version => some (Aggregate.withVersion version a)
  | _, _ => none

/-- What is committed of a copy has the version that was pending. -/
theorem version_written [LawfulAggregate A] (e : Entry A) :
    e.written.map Aggregate.version = e.pendingVersion := by
  rw [written]
  cases hworking : e.working with
  | none => simp [pendingVersion, hworking]
  | some a =>
    cases hbase : e.base with
    | none => simp [pendingVersion, hworking, hbase, LawfulAggregate.version_withVersion]
    | some base => simp [pendingVersion, hworking, hbase, LawfulAggregate.version_withVersion]

end Entry

namespace Store

/-- Writing one copy. -/
theorem find?_writeEntry (aggregates : OrdMap AggregateId A) (id : AggregateId) (e : Entry A)
    (q : AggregateId) :
    (writeEntry aggregates (id, e)).find? q =
      if q = id ∧ e.hasChanges = true then e.written else aggregates.find? q := by
  rw [writeEntry]
  by_cases hchanges : e.hasChanges = true
  · simp only [hchanges, if_true, and_true]
    by_cases hq : q = id
    · rw [if_pos hq, hq, Entry.written]
      cases e.working with
      | none => exact OrdMap.find?_erase_self aggregates id
      | some a =>
        cases e.pendingVersion with
        | none => exact OrdMap.find?_erase_self aggregates id
        | some version => exact OrdMap.find?_insert_self aggregates id _
    · rw [if_neg hq]
      split
      · exact OrdMap.find?_insert_of_ne aggregates hq _
      · exact OrdMap.find?_erase_of_ne aggregates hq
  · simp only [hchanges]
    simp

/-- Writing copies of different aggregates, in ascending order. -/
theorem find?_foldl_writeEntry {entries : List (AggregateId × Entry A)}
    (hs : entries.Pairwise fun a b => compare a.1 b.1 = .lt) (aggregates : OrdMap AggregateId A)
    (id : AggregateId) :
    (entries.foldl writeEntry aggregates).find? id =
      ((OrdMap.lookup id entries).filter Entry.hasChanges).elim (aggregates.find? id)
        Entry.written := by
  induction entries generalizing aggregates with
  | nil => rfl
  | cons first rest ih =>
    obtain ⟨q, e⟩ := first
    obtain ⟨hfirst, hrest⟩ := List.pairwise_cons.mp hs
    rw [List.foldl_cons, ih hrest, find?_writeEntry, OrdMap.lookup]
    by_cases hid : id = q
    · subst hid
      -- what is written first is not written again
      have hnone : OrdMap.lookup id rest = none := OrdMap.lookup_eq_none_of_forall_lt hfirst
      rw [hnone, if_pos Std.ReflCmp.compare_self, Option.filter_some]
      by_cases hchanges : e.hasChanges = true
      · rw [if_pos ⟨rfl, hchanges⟩, if_pos hchanges]
        rfl
      · rw [if_neg fun h => hchanges h.2, if_neg hchanges]
        rfl
    · have hne : compare id q ≠ .eq := fun h => hid (Std.LawfulEqOrd.eq_of_compare h)
      rw [if_neg hne]
      simp [hid]

variable {s s' : Store A} {tx : Transaction A} {versions : VersionMap}

/-- What a commit that succeeds does to the store. -/
theorem commit_eq_ok (h : s.commit tx = .ok (versions, s')) :
    s.conflict? tx = none ∧ versions = tx.versions ∧
      s' = { s with aggregates := tx.entries.entries.foldl writeEntry s.aggregates } := by
  rw [commit] at h
  cases hconflict : s.conflict? tx with
  | some e =>
    rw [hconflict] at h
    exact absurd h (by simp)
  | none =>
    rw [hconflict] at h
    obtain ⟨hversions, hs⟩ := Prod.mk.inj (Except.ok.inj h)
    exact ⟨rfl, hversions.symm, hs.symm⟩

/-- **A commit writes what the transaction changed**, and nothing else. -/
theorem get?_of_commit (h : s.commit tx = .ok (versions, s')) (id : AggregateId) :
    s'.get? id =
      ((tx.entries.find? id).filter Entry.hasChanges).elim (s.get? id) Entry.written := by
  obtain ⟨-, -, rfl⟩ := commit_eq_ok h
  exact find?_foldl_writeEntry tx.entries.ascending s.aggregates id

/-- **A commit that succeeds has found what it changes** at the version at which the transaction
first looked at it. -/
theorem version?_of_commit (h : s.commit tx = .ok (versions, s')) {id : AggregateId} {e : Entry A}
    (hfind : tx.entries.find? id = some e) (hchanges : e.hasChanges = true) :
    s.version? id = e.base := by
  obtain ⟨hconflict, -, -⟩ := commit_eq_ok h
  rw [conflict?, List.findSome?_eq_none_iff] at hconflict
  have hentry := hconflict (id, e) (OrdMap.find?_eq_some_iff.mp hfind)
  simpa [hchanges] using hentry

end Store

end RpkiAuthority
