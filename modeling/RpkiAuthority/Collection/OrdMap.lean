/-!
# Maps and sets kept in key order

A finite map is the list of its entries in strictly ascending key order. The order is part of the
type, so each map has one representation: two maps that answer every lookup alike are equal
(`OrdMap.ext_find?`), and listing a map always gives the same list. Everything this library writes
out, compares or hashes (configurations, entity tags, stored forms) relies on that.

An ordered set is a map to `Unit`, read through its keys.
-/

namespace RpkiAuthority

open Std (TransOrd LawfulEqOrd)

/-- A finite map listed in strictly ascending key order. -/
structure OrdMap (κ : Type) (ν : Type) [Ord κ] where
  entries : List (κ × ν)
  ascending : entries.Pairwise fun a b => compare a.1 b.1 = .lt
  deriving DecidableEq

namespace OrdMap

variable {κ ν μ : Type} [Ord κ]

/-! ### On entry lists -/

/-- Puts an entry at its place, replacing the entry with an equal key. -/
def insertEntry (k : κ) (v : ν) : List (κ × ν) → List (κ × ν)
  | [] => [(k, v)]
  | e :: rest =>
    match compare k e.1 with
    | .lt => (k, v) :: e :: rest
    | .eq => (k, v) :: rest
    | .gt => e :: insertEntry k v rest

/-- The value stored for a key. -/
def lookup (k : κ) : List (κ × ν) → Option ν
  | [] => none
  | e :: rest => if compare k e.1 = .eq then some e.2 else lookup k rest

theorem mem_insertEntry {k : κ} {v : ν} {e : κ × ν} :
    ∀ {l : List (κ × ν)}, e ∈ insertEntry k v l → e = (k, v) ∨ e ∈ l
  | [], h => by simpa [insertEntry] using h
  | x :: rest, h => by
    unfold insertEntry at h
    split at h
    · simpa using h
    · simp only [List.mem_cons] at h ⊢
      exact h.imp_right Or.inr
    · simp only [List.mem_cons] at h ⊢
      rcases h with h | h
      · exact .inr (.inl h)
      · exact (mem_insertEntry h).imp_right Or.inr

theorem pairwise_insertEntry [TransOrd κ] [LawfulEqOrd κ] {k : κ} {v : ν} :
    ∀ {l : List (κ × ν)}, (l.Pairwise fun a b => compare a.1 b.1 = .lt) →
      (insertEntry k v l).Pairwise fun a b => compare a.1 b.1 = .lt
  | [], _ => by simp [insertEntry]
  | x :: rest, h => by
    rw [List.pairwise_cons] at h
    unfold insertEntry
    split
    · next hk =>
      refine List.pairwise_cons.2 ⟨fun e he => ?_, List.pairwise_cons.2 h⟩
      rcases List.mem_cons.1 he with rfl | he
      · exact hk
      · exact Std.TransCmp.lt_trans hk (h.1 e he)
    · next hk =>
      refine List.pairwise_cons.2 ⟨fun e he => ?_, h.2⟩
      rw [LawfulEqOrd.eq_of_compare hk]
      exact h.1 e he
    · next hk =>
      refine List.pairwise_cons.2 ⟨fun e he => ?_, pairwise_insertEntry h.2⟩
      rcases mem_insertEntry he with rfl | he
      · exact Std.OrientedCmp.gt_iff_lt.1 hk
      · exact h.1 e he

/-! ### On maps -/

/-- The map without entries. -/
def empty : OrdMap κ ν := ⟨[], .nil⟩

instance : EmptyCollection (OrdMap κ ν) := ⟨empty⟩
instance : Inhabited (OrdMap κ ν) := ⟨empty⟩

/-- The value stored for a key, if there is one. -/
def find? (m : OrdMap κ ν) (k : κ) : Option ν := lookup k m.entries

/-- Whether there is an entry for the key. -/
def contains (m : OrdMap κ ν) (k : κ) : Bool := (m.find? k).isSome

/-- Stores a value for a key, replacing the value stored for it before. -/
def insert [TransOrd κ] [LawfulEqOrd κ] (m : OrdMap κ ν) (k : κ) (v : ν) : OrdMap κ ν :=
  ⟨insertEntry k v m.entries, pairwise_insertEntry m.ascending⟩

/-- Keeps the entries that satisfy a condition. -/
def filter (m : OrdMap κ ν) (p : κ → ν → Bool) : OrdMap κ ν :=
  ⟨m.entries.filter fun e => p e.1 e.2, m.ascending.filter _⟩

/-- Drops the entry for a key. -/
def erase (m : OrdMap κ ν) (k : κ) : OrdMap κ ν :=
  m.filter fun x _ => compare k x != .eq

/-- Changes every value, keeping the keys. -/
def mapValues (m : OrdMap κ ν) (f : ν → μ) : OrdMap κ μ :=
  ⟨m.entries.map fun e => (e.1, f e.2), List.Pairwise.map _ (fun _ _ h => h) m.ascending⟩

/-- The keys in ascending order. -/
def keys (m : OrdMap κ ν) : List κ := m.entries.map Prod.fst

/-- The values in the order of their keys. -/
def values (m : OrdMap κ ν) : List ν := m.entries.map Prod.snd

/-- The number of entries. -/
def size (m : OrdMap κ ν) : Nat := m.entries.length

/-- Whether the map has no entries. -/
def isEmpty (m : OrdMap κ ν) : Bool := m.entries.isEmpty

/-- The map of a list of entries, in which a later entry replaces an earlier one. -/
def ofList [TransOrd κ] [LawfulEqOrd κ] (l : List (κ × ν)) : OrdMap κ ν :=
  l.foldl (fun m e => m.insert e.1 e.2) empty

/-! ### Lookup determines the map -/

theorem lookup_insertEntry_self [LawfulEqOrd κ] (k : κ) (v : ν) (l : List (κ × ν)) :
    lookup k (insertEntry k v l) = some v := by
  induction l with
  | nil => simp [insertEntry, lookup]
  | cons e rest ih =>
    unfold insertEntry
    split
    · simp [lookup]
    · simp [lookup]
    · next hk => simp [lookup, hk, ih]

theorem lookup_insertEntry_of_ne [LawfulEqOrd κ] {k q : κ} (hq : q ≠ k) (v : ν)
    (l : List (κ × ν)) : lookup q (insertEntry k v l) = lookup q l := by
  have hqk : compare q k ≠ .eq := fun h => hq (LawfulEqOrd.eq_of_compare h)
  induction l with
  | nil => simp [insertEntry, lookup, hqk]
  | cons e rest ih =>
    unfold insertEntry
    split
    · simp [lookup, hqk]
    · next hk =>
      have := LawfulEqOrd.eq_of_compare hk
      subst this
      simp [lookup, hqk]
    · simp [lookup, ih]

@[simp] theorem find?_insert_self [TransOrd κ] [LawfulEqOrd κ] (m : OrdMap κ ν) (k : κ) (v : ν) :
    (m.insert k v).find? k = some v :=
  lookup_insertEntry_self k v m.entries

theorem find?_insert_of_ne [TransOrd κ] [LawfulEqOrd κ] (m : OrdMap κ ν) {k q : κ} (h : q ≠ k)
    (v : ν) : (m.insert k v).find? q = m.find? q :=
  lookup_insertEntry_of_ne h v m.entries

/-- A key below every key of a list has no value in it. -/
theorem lookup_eq_none_of_forall_lt {k : κ} :
    ∀ {l : List (κ × ν)}, (∀ e ∈ l, compare k e.1 = .lt) → lookup k l = none
  | [], _ => rfl
  | e :: rest, h => by
    have he := h e List.mem_cons_self
    simp [lookup, he, lookup_eq_none_of_forall_lt fun x hx => h x (List.mem_cons_of_mem _ hx)]

theorem eq_of_lookup_eq [TransOrd κ] [LawfulEqOrd κ] :
    ∀ {l r : List (κ × ν)}, (l.Pairwise fun a b => compare a.1 b.1 = .lt) →
      (r.Pairwise fun a b => compare a.1 b.1 = .lt) → (∀ k, lookup k l = lookup k r) → l = r
  | [], [], _, _, _ => rfl
  | [], e :: _, _, _, h => by simpa [lookup] using h e.1
  | e :: _, [], _, _, h => by simpa [lookup] using h e.1
  | a :: l, b :: r, hl, hr, h => by
    rw [List.pairwise_cons] at hl hr
    have below : ∀ {x y : κ × ν} {t : List (κ × ν)}, compare x.1 y.1 = .lt →
        (∀ e ∈ t, compare y.1 e.1 = .lt) → lookup x.1 (y :: t) = none := by
      intro x y t hxy ht
      refine lookup_eq_none_of_forall_lt fun e he => ?_
      rcases List.mem_cons.1 he with rfl | he
      · exact hxy
      · exact Std.TransCmp.lt_trans hxy (ht e he)
    have hkey : a.1 = b.1 := by
      cases hc : compare a.1 b.1 with
      | eq => exact LawfulEqOrd.eq_of_compare hc
      | lt =>
        have := h a.1
        rw [below hc hr.1] at this
        simp [lookup] at this
      | gt =>
        have := h b.1
        rw [below (Std.OrientedCmp.gt_iff_lt.1 hc) hl.1] at this
        simp [lookup] at this
    have hval : a.2 = b.2 := by
      have := h a.1
      simpa [lookup, hkey] using this
    have hrest : l = r := by
      refine eq_of_lookup_eq hl.2 hr.2 fun k => ?_
      cases hc : compare k a.1 with
      | eq =>
        have hk := LawfulEqOrd.eq_of_compare hc
        rw [hk, lookup_eq_none_of_forall_lt hl.1, hkey, lookup_eq_none_of_forall_lt hr.1]
      | lt => simpa [lookup, hc, ← hkey] using h k
      | gt => simpa [lookup, hc, ← hkey] using h k
    rw [hrest, Prod.ext hkey hval]

/-- **Equal lookups make equal maps.** The ascending list leaves no freedom of representation. -/
theorem ext_find? [TransOrd κ] [LawfulEqOrd κ] {m n : OrdMap κ ν}
    (h : ∀ k, m.find? k = n.find? k) : m = n := by
  cases m; cases n
  congr
  exact eq_of_lookup_eq (by assumption) (by assumption) h

end OrdMap

/-! ### Sets -/

/-- A finite set listed in strictly ascending order. -/
abbrev OrdSet (α : Type) [Ord α] := OrdMap α Unit

namespace OrdSet

variable {α : Type} [Ord α]

/-- The members in ascending order. -/
def toList (s : OrdSet α) : List α := OrdMap.keys s

/-- Adds a member. -/
def add [TransOrd α] [LawfulEqOrd α] (s : OrdSet α) (a : α) : OrdSet α := OrdMap.insert s a ()

/-- The set of the members of a list. -/
def ofMembers [TransOrd α] [LawfulEqOrd α] (l : List α) : OrdSet α :=
  l.foldl add OrdMap.empty

end OrdSet

end RpkiAuthority
