import RpkiAuthority.Proofs.Aspa.Submitted

/-!
# The difference of two ASPA configurations

The difference lists what changes, customer by customer: the providers that come or get another
limit, and those that go. It is what the history of a certificate authority tells about an update,
so nothing may be missing from it and nothing too much. It has an entry for exactly the customers
whose entry differs (`AspaConfiguration.find?_diff_eq_some_iff`), and each entry turns the providers
that a customer had into those it gets, without a word that could be left out
(`AspaConfiguration.diff_reconstructs`).

Everything is seen from single look-ups: a change is carried out provider by provider
(`AspaChange.find?_applied`), and the change between two sets of providers is told from what either
of them has for a provider (`AspaConfiguration.find?_added`, `AspaConfiguration.mem_deleted_iff`).
-/

namespace RpkiAuthority

/-! ### Maps that several keys are taken from -/

namespace OrdMap

open Std (TransOrd LawfulEqOrd)

variable {κ ν : Type} [Ord κ] [TransOrd κ] [LawfulEqOrd κ]

/-- Keys that are erased one after the other are gone, and all others are left alone. -/
theorem find?_foldl_erase_eq_some_iff {l : List κ} {m : OrdMap κ ν} {k : κ} {v : ν} :
    (l.foldl erase m).find? k = some v ↔ k ∉ l ∧ m.find? k = some v := by
  induction l generalizing m with
  | nil => simp
  | cons q l ih =>
    rw [List.foldl_cons, ih, find?_erase_eq_some_iff, List.mem_cons, not_or, ← and_assoc,
      and_comm (a := k ∉ l)]

end OrdMap

/-! ### Changes of providers -/

namespace AspaChange

/-- No provider comes and none goes. -/
def none : AspaChange := ⟨OrdMap.empty, OrdMap.empty⟩

/-- The providers after a change: those that go are taken away, and then those that come are put in,
also over a limit that is there. -/
def applied (d : AspaChange) (m : AspaProviders) : AspaProviders :=
  d.added.entries.foldl (fun m e => m.insert e.1 e.2) (d.deleted.toList.foldl OrdMap.erase m)

/-- **Nothing in a change could be left out**: a provider that comes was not there with its limit,
one that goes was there and is no longer, and no provider does both. -/
structure Minimal (d : AspaChange) (current updated : AspaProviders) : Prop where
  added : ∀ {a limit}, d.added.find? a = some limit → current.find? a ≠ some limit
  deleted : ∀ {a}, a ∈ d.deleted.toList → a ∈ current.keys ∧ a ∉ updated.keys
  apart : ∀ {a}, a ∈ d.added.keys → a ∉ d.deleted.toList

variable {d : AspaChange} {m : AspaProviders} {a : Asn} {limit : AspaLimit}

/-- **A change is carried out provider by provider.** -/
theorem find?_applied : (d.applied m).find? a = some limit ↔
    d.added.find? a = some limit ∨
      d.added.find? a = .none ∧ a ∉ d.deleted.toList ∧ m.find? a = some limit := by
  rw [applied, OrdMap.find?_foldl_insert d.added.ascending, Option.or_eq_some_iff,
    OrdMap.find?_foldl_erase_eq_some_iff]
  rfl

end AspaChange

/-! ### The change between two sets of providers -/

namespace AspaConfiguration

variable {current updated : AspaProviders} {a : Asn} {limit : AspaLimit}

/-- A provider comes with a limit that it has afterwards and did not have before. -/
theorem find?_added : (change current updated).added.find? a = some limit ↔
    updated.find? a = some limit ∧ current.find? a ≠ some limit := by
  rw [change, OrdMap.find?_filter, Option.filter_eq_some_iff, bne_iff_ne]

/-- A provider goes that was there before and is not afterwards. -/
theorem mem_deleted_iff : a ∈ (change current updated).deleted.toList ↔
    a ∈ current.keys ∧ a ∉ updated.keys := by
  rw [change, OrdSet.mem_toList_ofMembers, List.mem_filter, Bool.not_eq_true',
    ← Bool.not_eq_true, OrdMap.contains_iff]

/-- **The change leads from the one to the other.** -/
theorem applied_change (current updated : AspaProviders) :
    (change current updated).applied current = updated := by
  refine OrdMap.ext_find? fun a => Option.ext fun limit => ?_
  rw [AspaChange.find?_applied, find?_added, mem_deleted_iff]
  constructor
  · rintro (⟨hnew, -⟩ | ⟨hnone, hkept, hold⟩)
    · exact hnew
    · -- who does not go is there afterwards, and who does not come has the limit from before
      have hkey : a ∈ current.keys := OrdMap.contains_iff.mp (Option.isSome_of_eq_some hold)
      have hstays : a ∈ updated.keys :=
        Classical.byContradiction fun hgone => hkept ⟨hkey, hgone⟩
      obtain ⟨limit', hnew⟩ := Option.isSome_iff_exists.mp (OrdMap.contains_iff.mpr hstays)
      by_cases hsame : current.find? a = some limit'
      · rwa [← hold, hsame]
      · rw [find?_added.mpr ⟨hnew, hsame⟩] at hnone
        exact nomatch hnone
  · intro hnew
    by_cases hsame : current.find? a = some limit
    · refine .inr ⟨?_, fun hgone => hgone.2 ?_, hsame⟩
      · rw [Option.eq_none_iff_forall_ne_some]
        intro limit' hadded
        obtain ⟨hnew', hdiffers⟩ := find?_added.mp hadded
        exact hdiffers (hsame.trans (hnew.symm.trans hnew'))
      · exact OrdMap.contains_iff.mp (Option.isSome_of_eq_some hnew)
    · exact .inl ⟨hnew, hsame⟩

theorem minimal_change (current updated : AspaProviders) :
    (change current updated).Minimal current updated where
  added h := (find?_added.mp h).2
  deleted h := mem_deleted_iff.mp h
  apart ha hdeleted := by
    obtain ⟨limit, hadded⟩ := Option.isSome_iff_exists.mp (OrdMap.contains_iff.mpr ha)
    refine (mem_deleted_iff.mp hdeleted).2 (OrdMap.contains_iff.mp ?_)
    exact Option.isSome_of_eq_some (find?_added.mp hadded).1

/-- Nothing changes where the providers are the same. -/
theorem change_self (m : AspaProviders) : change m m = AspaChange.none := by
  refine congr (congrArg AspaChange.mk ?_) ?_
  · refine OrdMap.ext_find? fun a => Option.ext fun limit => ?_
    exact iff_of_false (fun h => (find?_added.mp h).2 (find?_added.mp h).1) (fun h => nomatch h)
  · refine OrdSet.ext_toList fun a => ?_
    exact iff_of_false (fun h => (mem_deleted_iff.mp h).2 (mem_deleted_iff.mp h).1)
      List.not_mem_nil

/-! ### The difference of two configurations -/

variable {m n : AspaConfiguration} {customer : Asn} {d : AspaChange}

/-- The providers of a customer. One that is not there has none. -/
def providersOf (m : AspaConfiguration) (customer : Asn) : AspaProviders :=
  (m.find? customer).getD OrdMap.empty

/-- What changes for a customer. -/
def changeFor (changes : OrdMap Asn AspaChange) (customer : Asn) : AspaChange :=
  (changes.find? customer).getD AspaChange.none

/-- **The difference has an entry for a customer** whose entry differs, and it is the change of the
providers. -/
theorem find?_diff_eq_some_iff : (diff m n).find? customer = some d ↔
    m.find? customer ≠ n.find? customer ∧
      change (m.providersOf customer) (n.providersOf customer) = d := by
  rw [diff, OrdMap.ofList, OrdMap.find?_foldl_insert_empty Prod.fst Prod.snd]
  · simp only [List.mem_filterMap, OrdSet.mem_toList_ofMembers]
    constructor
    · rintro ⟨_, ⟨c, -, hc⟩, rfl, rfl⟩
      split at hc
      · exact nomatch hc
      · next hdiffers =>
        obtain rfl := Option.some.inj hc
        exact ⟨hdiffers, rfl⟩
    · rintro ⟨hdiffers, rfl⟩
      refine ⟨(customer, _), ⟨customer, ?_, if_neg hdiffers⟩, rfl, rfl⟩
      -- a customer in neither of the two has the same entry in both
      rw [List.mem_append]
      refine Classical.byContradiction fun hnew => ?_
      rw [not_or, ← OrdMap.contains_iff, ← OrdMap.contains_iff, Bool.not_eq_true, Bool.not_eq_true,
        OrdMap.contains_eq_false_iff, OrdMap.contains_eq_false_iff] at hnew
      exact hdiffers (hnew.1.trans hnew.2.symm)
  · -- every change is listed under its customer, and every customer once
    have hkey : ∀ {p : Prop} [Decidable p] {c b : Asn} {d : AspaChange},
        Option.map Prod.fst (if p then none else some (c, d)) = some b → c = b := by
      intro p _ c b d h
      split at h
      · exact nomatch h
      · exact Option.some.inj h
    rw [List.map_filterMap]
    refine List.Pairwise.filterMap _ (fun c c' hne b hb b' hb' => ?_) (OrdMap.nodup_keys _)
    rwa [← hkey hb, ← hkey hb']

theorem contains_diff_iff : (diff m n).contains customer = true ↔
    m.find? customer ≠ n.find? customer := by
  rw [OrdMap.contains, Option.isSome_iff_exists]
  constructor
  · rintro ⟨d, h⟩
    exact (find?_diff_eq_some_iff.mp h).1
  · exact fun h => ⟨_, find?_diff_eq_some_iff.mpr ⟨h, rfl⟩⟩

/-- **There is no difference** exactly between equal configurations. -/
theorem isEmpty_diff_iff : (diff m n).isEmpty = true ↔ m = n := by
  constructor
  · intro hempty
    refine OrdMap.ext_find? fun customer => Classical.byContradiction fun hdiffers => ?_
    rw [← ne_eq, ← contains_diff_iff, OrdMap.eq_empty_of_isEmpty hempty] at hdiffers
    exact nomatch hdiffers
  · rintro rfl
    have hempty : diff m m = OrdMap.empty := by
      refine OrdMap.ext_find? fun customer => OrdMap.contains_eq_false_iff.mp ?_
      rw [← Bool.not_eq_true, contains_diff_iff, ne_eq, Decidable.not_not]
    rw [hempty]
    rfl

/-- **What changes for a customer** is the change of its providers, also if there is none. -/
theorem changeFor_diff (m n : AspaConfiguration) (customer : Asn) :
    changeFor (diff m n) customer = change (m.providersOf customer) (n.providersOf customer) := by
  rw [changeFor]
  cases hd : (diff m n).find? customer with
  | some d => exact (find?_diff_eq_some_iff.mp hd).2.symm
  | none =>
    have hsame : m.find? customer = n.find? customer :=
      Decidable.byContradiction fun hdiffers =>
        nomatch hd.symm.trans (find?_diff_eq_some_iff.mpr ⟨hdiffers, rfl⟩)
    rw [providersOf, providersOf, hsame, change_self]
    rfl

/-- **The difference tells everything that changes, and nothing else.** It has an entry for exactly
the customers whose entry differs, so there is none exactly between equal configurations. What it
says of a customer turns the providers that were there into those that are there afterwards, where a
customer without an entry has no providers, and no part of it could be left out. -/
theorem diff_reconstructs (m n : AspaConfiguration) :
    (∀ customer, (diff m n).contains customer = true ↔ m.find? customer ≠ n.find? customer) ∧
    ((diff m n).isEmpty = true ↔ m = n) ∧
    ∀ customer,
      (changeFor (diff m n) customer).applied (m.providersOf customer) = n.providersOf customer ∧
      (changeFor (diff m n) customer).Minimal (m.providersOf customer)
        (n.providersOf customer) := by
  refine ⟨fun customer => contains_diff_iff, isEmpty_diff_iff, fun customer => ?_⟩
  rw [changeFor_diff]
  exact ⟨applied_change _ _, minimal_change _ _⟩

end AspaConfiguration

end RpkiAuthority
