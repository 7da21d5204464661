import RpkiAuthority.Collection.OrdMap

/-!
# Looking things up in ordered maps

Everything an ordered map is asked can be put as a question about single entries:
`OrdMap.find?_eq_some_iff` says that a look-up finds exactly the entries of the list. From it follow
the look-ups in a map that was filtered, had an entry erased or its values changed, and the members
of a set that was made from a list. Maps and sets are made again from what they list
(`OrdMap.ofList_entries`, `OrdSet.ofMembers_toList`).
-/

namespace RpkiAuthority

open Std (TransOrd LawfulEqOrd)

namespace OrdMap

variable {κ ν μ : Type} [Ord κ] [TransOrd κ] [LawfulEqOrd κ]

/-! ### Entries and look-ups -/

omit [TransOrd κ] in
theorem mem_of_lookup_eq_some {k : κ} {v : ν} {l : List (κ × ν)} (h : lookup k l = some v) :
    (k, v) ∈ l := by
  induction l with
  | nil => exact absurd h (by simp [lookup])
  | cons e rest ih =>
    rw [lookup] at h
    split at h
    · next hk =>
      obtain rfl := LawfulEqOrd.eq_of_compare hk
      obtain rfl := Option.some.inj h
      exact List.mem_cons_self
    · exact List.mem_cons_of_mem e (ih h)

theorem lookup_eq_some_of_mem {k : κ} {v : ν} {l : List (κ × ν)}
    (hs : l.Pairwise fun a b => compare a.1 b.1 = .lt) (h : (k, v) ∈ l) : lookup k l = some v := by
  induction l with
  | nil => exact absurd h List.not_mem_nil
  | cons e rest ih =>
    obtain ⟨hfirst, hrest⟩ := List.pairwise_cons.mp hs
    rcases List.mem_cons.mp h with rfl | h
    · simp [lookup]
    · -- the key of a later entry is not the first key
      have hlt : compare e.1 k = .lt := hfirst (k, v) h
      have hne : compare k e.1 ≠ .eq := by
        intro heq
        rw [Std.OrientedCmp.eq_symm heq] at hlt
        exact absurd hlt (by decide)
      rw [lookup, if_neg hne]
      exact ih hrest h

/-- **A look-up finds exactly the entries.** -/
theorem find?_eq_some_iff {m : OrdMap κ ν} {k : κ} {v : ν} :
    m.find? k = some v ↔ (k, v) ∈ m.entries :=
  ⟨mem_of_lookup_eq_some, lookup_eq_some_of_mem m.ascending⟩

omit [TransOrd κ] [LawfulEqOrd κ] in
@[simp] theorem find?_empty (k : κ) : (empty : OrdMap κ ν).find? k = none := rfl

theorem contains_iff {m : OrdMap κ ν} {k : κ} : m.contains k = true ↔ k ∈ m.keys := by
  rw [contains, Option.isSome_iff_exists, keys, List.mem_map]
  constructor
  · rintro ⟨v, hv⟩
    exact ⟨(k, v), find?_eq_some_iff.mp hv, rfl⟩
  · rintro ⟨⟨q, v⟩, hv, rfl⟩
    exact ⟨v, find?_eq_some_iff.mpr hv⟩

omit [TransOrd κ] [LawfulEqOrd κ] in
theorem contains_eq_false_iff {m : OrdMap κ ν} {k : κ} :
    m.contains k = false ↔ m.find? k = none := by
  rw [contains, Option.isSome_eq_false_iff, Option.isNone_iff_eq_none]

theorem mem_values_iff {m : OrdMap κ ν} {v : ν} : v ∈ m.values ↔ ∃ k, m.find? k = some v := by
  simp only [values, List.mem_map, Prod.exists, exists_eq_right, find?_eq_some_iff]

/-! ### Look-ups after an operation -/

@[simp] theorem find?_filter (m : OrdMap κ ν) (p : κ → ν → Bool) (k : κ) :
    (m.filter p).find? k = (m.find? k).filter (p k) := by
  refine Option.ext fun v => ?_
  rw [find?_eq_some_iff, Option.filter_eq_some_iff, find?_eq_some_iff, filter, List.mem_filter]

omit [TransOrd κ] [LawfulEqOrd κ] in
/-- A map is not changed by a filter that none of its entries fails. -/
theorem filter_eq_self {m : OrdMap κ ν} {p : κ → ν → Bool} (h : ∀ e ∈ m.entries, p e.1 e.2 = true) :
    m.filter p = m := by
  cases m with
  | mk entries ascending =>
    rw [filter]
    congr
    exact List.filter_eq_self.mpr h

/-- A filter keeps the keys of the entries that pass. -/
theorem contains_filter_of_mem {m : OrdMap κ ν} {p : κ → ν → Bool} {e : κ × ν}
    (h : e ∈ m.entries) : (m.filter p).contains e.1 = p e.1 e.2 := by
  rw [contains, find?_filter, find?_eq_some_iff.mpr h, Option.filter_some]
  split <;> next hp => simp [hp]

@[simp] theorem find?_erase_self (m : OrdMap κ ν) (k : κ) : (m.erase k).find? k = none := by
  simp [erase]

theorem find?_erase_of_ne (m : OrdMap κ ν) {k q : κ} (h : q ≠ k) :
    (m.erase k).find? q = m.find? q := by
  have hne : (compare k q != .eq) = true := by
    simp only [bne_iff_ne, ne_eq]
    exact fun heq => h (LawfulEqOrd.eq_of_compare heq).symm
  rw [erase, find?_filter]
  cases m.find? q <;> simp_all [Option.filter]

/-- What is found after an insertion is what was inserted, or was there. -/
theorem find?_insert_eq_some_iff {m : OrdMap κ ν} {k q : κ} {v u : ν} :
    (m.insert k v).find? q = some u ↔ q = k ∧ v = u ∨ q ≠ k ∧ m.find? q = some u := by
  by_cases h : q = k
  · simp [h, find?_insert_self]
  · simp [h, find?_insert_of_ne m h]

theorem find?_erase_eq_some_iff {m : OrdMap κ ν} {k q : κ} {u : ν} :
    (m.erase k).find? q = some u ↔ q ≠ k ∧ m.find? q = some u := by
  by_cases h : q = k
  · simp [h]
  · simp [h, find?_erase_of_ne m h]

theorem contains_erase_iff {m : OrdMap κ ν} {k q : κ} :
    (m.erase k).contains q = true ↔ q ≠ k ∧ m.contains q = true := by
  rw [contains, contains]
  by_cases h : q = k
  · simp [h]
  · simp [h, find?_erase_of_ne m h]

theorem erase_eq_self {m : OrdMap κ ν} {k : κ} (h : m.contains k = false) : m.erase k = m := by
  refine ext_find? fun q => ?_
  by_cases hq : q = k
  · rw [hq, find?_erase_self, contains_eq_false_iff.mp h]
  · exact find?_erase_of_ne m hq

theorem erase_erase (m : OrdMap κ ν) (k : κ) : (m.erase k).erase k = m.erase k :=
  erase_eq_self (contains_eq_false_iff.mpr (find?_erase_self m k))

theorem erase_insert (m : OrdMap κ ν) (k : κ) (v : ν) : (m.insert k v).erase k = m.erase k := by
  refine ext_find? fun q => ?_
  by_cases hq : q = k
  · rw [hq, find?_erase_self, find?_erase_self]
  · rw [find?_erase_of_ne _ hq, find?_erase_of_ne _ hq, find?_insert_of_ne _ hq]

omit [TransOrd κ] [LawfulEqOrd κ] in
theorem eq_empty_of_isEmpty {m : OrdMap κ ν} (h : m.isEmpty = true) : m = empty := by
  cases m with
  | mk entries ascending =>
    obtain rfl : entries = [] := List.isEmpty_iff.mp h
    rfl

omit [TransOrd κ] [LawfulEqOrd κ] in
@[simp] theorem find?_mapValues (m : OrdMap κ ν) (f : ν → μ) (k : κ) :
    (m.mapValues f).find? k = (m.find? k).map f := by
  show lookup k (m.entries.map fun e => (e.1, f e.2)) = (lookup k m.entries).map f
  induction m.entries with
  | nil => rfl
  | cons e rest ih =>
    rw [List.map_cons, lookup, lookup]
    split
    · rfl
    · exact ih

/-- Inserting entries in ascending order one after the other. -/
theorem find?_foldl_insert {l : List (κ × ν)} (hs : l.Pairwise fun a b => compare a.1 b.1 = .lt)
    (m : OrdMap κ ν) (k : κ) :
    (l.foldl (fun m e => m.insert e.1 e.2) m).find? k = (lookup k l).or (m.find? k) := by
  induction l generalizing m with
  | nil => rfl
  | cons e rest ih =>
    obtain ⟨hfirst, hrest⟩ := List.pairwise_cons.mp hs
    rw [List.foldl_cons, ih hrest, lookup]
    by_cases hk : k = e.1
    · -- the key does not come again
      have hnone : lookup k rest = none := lookup_eq_none_of_forall_lt (hk ▸ hfirst)
      rw [hnone, hk, find?_insert_self, if_pos Std.ReflCmp.compare_self]
      rfl
    · have hne : compare k e.1 ≠ .eq := fun h => hk (LawfulEqOrd.eq_of_compare h)
      rw [find?_insert_of_ne _ hk, if_neg hne]

/-- **A map is made again** from its entries. -/
theorem ofList_entries (m : OrdMap κ ν) : ofList m.entries = m := by
  refine ext_find? fun k => ?_
  rw [ofList, find?_foldl_insert m.ascending, find?_empty, Option.or_none]
  rfl

omit [LawfulEqOrd κ] in
/-- No key occurs twice. -/
theorem nodup_keys (m : OrdMap κ ν) : m.keys.Nodup := by
  rw [keys, List.Nodup, List.pairwise_map]
  refine m.ascending.imp fun {a b} hlt heq => ?_
  have hself : compare b.1 b.1 = .eq := Std.ReflCmp.compare_self
  rw [heq, hself] at hlt
  exact nomatch hlt

omit [TransOrd κ] in
/-- Changing the values of a list of entries, and dropping those without a new value. -/
theorem lookup_filterMap {l : List (κ × ν)} (hs : l.Pairwise fun a b => compare a.1 b.1 = .lt)
    (f : ν → Option μ) (k : κ) :
    lookup k (l.filterMap fun e => (f e.2).map (e.1, ·)) = (lookup k l).bind f := by
  induction l with
  | nil => rfl
  | cons e rest ih =>
    obtain ⟨hfirst, hrest⟩ := List.pairwise_cons.mp hs
    rw [List.filterMap_cons, lookup]
    by_cases hk : compare k e.1 = .eq
    · have hnone : lookup k rest = none :=
        lookup_eq_none_of_forall_lt (LawfulEqOrd.eq_of_compare hk ▸ hfirst)
      rw [if_pos hk]
      cases hf : f e.2 with
      | none => simp [ih hrest, hnone, hf]
      | some u => simp [lookup, hk, hf]
    · rw [if_neg hk, ← ih hrest]
      cases f e.2 with
      | none => rfl
      | some u => simp [lookup, hk]

/-! ### Sets made from lists -/

theorem mem_keys_insert {m : OrdMap κ ν} {k q : κ} {v : ν} :
    q ∈ (m.insert k v).keys ↔ q = k ∨ q ∈ m.keys := by
  rw [← contains_iff, ← contains_iff, contains, contains]
  by_cases h : q = k
  · simp [h]
  · simp [h, find?_insert_of_ne m h]

end OrdMap

namespace OrdSet

variable {α : Type} [Ord α] [TransOrd α] [LawfulEqOrd α]

/-- Adding members one after the other adds exactly these. -/
theorem mem_foldl_add {l : List α} {s : OrdSet α} {a : α} :
    a ∈ OrdSet.toList (l.foldl add s) ↔ a ∈ s.toList ∨ a ∈ l := by
  induction l generalizing s with
  | nil => simp
  | cons b rest ih =>
    rw [List.foldl_cons, ih, List.mem_cons]
    show a ∈ (OrdMap.insert s b ()).keys ∨ a ∈ rest ↔ _
    rw [OrdMap.mem_keys_insert, or_assoc, or_left_comm]
    rfl

theorem contains_add_iff {s : OrdSet α} {a b : α} :
    OrdMap.contains (s.add a) b = true ↔ b = a ∨ s.contains b = true := by
  rw [add, OrdMap.contains_iff, OrdMap.mem_keys_insert, OrdMap.contains_iff]

/-- **A set made from a list** has the members of the list. -/
@[simp] theorem mem_toList_ofMembers {l : List α} {a : α} :
    a ∈ (ofMembers l).toList ↔ a ∈ l := by
  rw [ofMembers, mem_foldl_add]
  exact or_iff_right List.not_mem_nil

/-- **Sets with the same members are equal.** -/
theorem ext_toList {s t : OrdSet α} (h : ∀ a, a ∈ s.toList ↔ a ∈ t.toList) : s = t := by
  refine OrdMap.ext_find? fun a => Option.ext fun u => ?_
  have hmem : ∀ s : OrdSet α, s.find? a = some u ↔ a ∈ s.toList := fun s => by
    rw [toList, ← OrdMap.contains_iff, OrdMap.contains, Option.isSome_iff_exists]
    exact ⟨fun hu => ⟨u, hu⟩, fun ⟨_, hu⟩ => hu⟩
  rw [hmem, hmem, h]

/-- **A set is made again** from its members. -/
theorem ofMembers_toList (s : OrdSet α) : ofMembers s.toList = s := by
  have hfold : ofMembers s.toList = OrdMap.ofList s.entries := List.foldl_map
  rw [hfold, OrdMap.ofList_entries]

omit [TransOrd α] [LawfulEqOrd α] in
/-- A filter keeps the members that pass, in their order. -/
theorem toList_filter (s : OrdSet α) (p : α → Bool) :
    toList (OrdMap.filter s fun a _ => p a) = s.toList.filter p := by
  rw [toList, toList, OrdMap.keys, OrdMap.keys, OrdMap.filter, List.filter_map]
  rfl

end OrdSet

end RpkiAuthority
