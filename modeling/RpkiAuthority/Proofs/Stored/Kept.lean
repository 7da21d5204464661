import RpkiAuthority.Proofs.Collection.Lookup
import RpkiAuthority.Proofs.Json.Written
import RpkiAuthority.Proofs.Resource.RoundTrip

/-!
# Values that are stored are kept

A value is kept if it is restored from the JSON text that is written for it (`Stored.Kept`,
`Stored.Kept.restore_text`). A text is read as the stored form with the strings reread, so this is a
question about the stored form alone. Simple values are kept; collections are kept if their members
are (`Stored.kept_list`, `Stored.kept_set`, `Stored.restoreMap_storeMap`); and a record is kept if
its fields are, because each name is that of one member (`Stored.fieldOr_rereadMembers`) and so the
fields come out as they were (`Stored.restoreRecord_record`).
-/

namespace RpkiAuthority.Stored

open Text

variable {α β : Type}

/-- **A value is kept** if it is restored from what the text of its stored form is read as. -/
def Kept [Stored α] (a : α) : Prop := restore (store a).reread = .ok a

/-- What is kept is restored from its text. -/
theorem Kept.restore_text [Stored α] {a : α} (h : Kept a) :
    (Json.parse (Json.write (store a))).map restore = some (.ok a) := by
  rw [Json.parse_write, Option.map_some, h]

/-! ### Simple values -/

theorem kept_bool (b : Bool) : Kept b := rfl

theorem kept_string (s : String) : Kept s := rfl

theorem restoreNat64_nat {n : Nat} (h : n ≤ max64) :
    restoreNat64 (JsonValue.nat n).reread = .ok n :=
  if_pos h

/-- A text is read as it was written. -/
theorem restoreText_text (read : String → Restored α) (s : String) :
    restoreText read (JsonValue.text s).reread = read s := rfl

/-- So is the name of a state. -/
theorem restoreName_text {read : String → Option α} {name : String} {a : α}
    (h : read name = some a) : restoreName read (JsonValue.text name).reread = .ok a :=
  Reading.ofOption_eq_ok.mpr h

theorem kept_asn (a : Asn) : Kept a :=
  Reading.ofOption_eq_ok.mpr (dif_pos a.isLt)

theorem kept_pfx (p : Prefix) : Kept p := by
  show (Reading.ofExcept (Prefix.parse p.text)).mapCause (fun _ => ()) = .ok p
  rw [Prefix.parse_text]
  rfl

theorem kept_resources {s : ResourceSet} (h : s.Canonical) : Kept s := by
  show (ResourceSet.read s.text).mapCause (fun _ => ()) = .ok s
  rw [ResourceSet.read_text h]
  rfl

/-- A record is read with the names of its members. -/
theorem reread_record (members : List (String × JsonValue)) :
    (JsonValue.record members).reread =
      .object (members.map fun e => ((JsonString.of e.1).reread, e.2.reread)) := by
  rw [JsonValue.record, JsonValue.reread_object, List.map_map]
  rfl

theorem reread_record_ne_null (members : List (String × JsonValue)) :
    (JsonValue.record members).reread ≠ .null := by
  rw [reread_record]
  exact nofun

/-! ### Collections -/

section Collections

variable [Stored α]

theorem kept_none : Kept (none : Option α) := rfl

/-- What may be missing is kept if its stored form cannot be taken for nothing. -/
theorem kept_some {a : α} (h : Kept a) (hnull : (store a).reread ≠ .null) : Kept (some a) := by
  have hsome : ∀ {v : JsonValue}, v ≠ .null →
      (restore v : Restored (Option α)) = (restore v).map some := by
    intro v hv
    cases v with
    | null => exact absurd rfl hv
    | _ => rfl
  exact (hsome hnull).trans (congrArg (Except.map some) h)

theorem kept_list {l : List α} (h : ∀ a ∈ l, Kept a) : Kept l := by
  show restore (JsonValue.array (l.map store)).reread = .ok l
  rw [JsonValue.reread_array, List.map_map]
  show (l.map (JsonValue.reread ∘ store)).mapM restore = .ok l
  rw [Reading.mapM_eq_ok_iff, List.forall₂_map_left_iff, List.forall₂_same]
  exact h

/-- A set is kept as the list of its members. -/
theorem kept_set [Ord α] [Std.TransOrd α] [Std.LawfulEqOrd α] {s : OrdSet α}
    (h : ∀ a ∈ s.toList, Kept a) : Kept s := by
  show Except.map OrdSet.ofMembers (restore (store s.toList).reread) = .ok s
  rw [kept_list h]
  exact congrArg Except.ok (OrdSet.ofMembers_toList s)

/-- **A map is kept** if its keys can be told from the names of the members and its values are
kept. -/
theorem restoreMap_storeMap {κ : Type} [Ord κ] [Std.TransOrd κ] [Std.LawfulEqOrd κ]
    {name : κ → String} {key : JsonString → Option κ}
    (hkey : ∀ k, key (JsonString.of (name k)).reread = some k)
    {m : OrdMap κ α} (h : ∀ a ∈ m.values, Kept a) :
    restoreMap key (storeMap name m).reread = .ok m := by
  have hentries : (m.entries.map fun e =>
      ((JsonString.of (name e.1)).reread, (store e.2).reread)).mapM (fun e => do
        let k ← Reading.ofOption () (key e.1)
        return (k, ← restore e.2)) = Except.ok m.entries := by
    rw [Reading.mapM_eq_ok_iff, List.forall₂_map_left_iff, List.forall₂_same]
    intro e he
    have hvalue : restore (store e.2).reread = .ok e.2 := h e.2 (List.mem_map_of_mem he)
    simp only [hkey, hvalue]
    rfl
  rw [storeMap, reread_record, List.map_map, restoreMap]
  simp only [Function.comp_def, hentries]
  exact congrArg Except.ok m.ofList_entries

end Collections

/-! ### Records -/

/-- A field that came out. -/
abbrev Fields.Gives (x : Fields α) (a : α) : Prop := x = Except.ok a

namespace Fields.Gives

theorem map {x : Fields α} {a : α} (hx : x.Gives a) (f : α → β) : (f <$> x).Gives (f a) := by
  rw [Gives, hx]
  rfl

/-- **Fields come out together.** -/
theorem seq {f : Fields (α → β)} {x : Fields α} {g : α → β} {a : α} (hf : f.Gives g)
    (hx : x.Gives a) : (f <*> x).Gives (g a) := by
  rw [Gives, hf, hx]
  rfl

end Fields.Gives

section Records

variable {members : List (String × JsonValue)} {name : String} {v : JsonValue} {a : α}
  {read : JsonValue → Restored α}

/-- The members of a record as they are found in its text. -/
def rereadMembers (members : List (String × JsonValue)) : Members :=
  ⟨true, members.map fun e => ((JsonString.of e.1).reread, e.2.reread)⟩

/-- **A field has the one member with its name**, if no two members share a name. -/
theorem exists_ofField_eq (hnames : (members.map Prod.fst).Nodup) (h : (name, v) ∈ members) :
    ∃ i, (rereadMembers members).ofField name = [(i, v.reread)] := by
  let ofName : (JsonString × JsonValue) × Nat → Option (Nat × JsonValue) :=
    fun m => if m.1.1.value = some name then some (m.2, m.1.2) else none
  have hvalue : ∀ s, (JsonString.of s).reread.value = some s := fun _ => rfl
  -- the members before the one of the name count for its position
  suffices hfrom : ∀ k, ∃ i,
      ((rereadMembers members).list.zipIdx k).filterMap ofName = [(i, v.reread)] from hfrom 0
  induction members with
  | nil => exact absurd h List.not_mem_nil
  | cons m members ih =>
    intro k
    rw [List.map_cons, List.nodup_cons] at hnames
    rw [rereadMembers, List.map_cons, List.zipIdx_cons, List.filterMap_cons]
    rcases List.mem_cons.mp h with rfl | h
    · have hnone : ((rereadMembers members).list.zipIdx (k + 1)).filterMap ofName = [] := by
        rw [List.filterMap_eq_nil_iff]
        rintro ⟨e, i⟩ he
        obtain ⟨m, hm, rfl⟩ := List.mem_map.mp (List.fst_mem_of_mem_zipIdx he)
        have hne : m.1 ≠ name := fun heq => hnames.1 (List.mem_map.mpr ⟨m, hm, heq⟩)
        simp [ofName, hvalue, hne]
      exact ⟨k, by simpa [ofName, hvalue, rereadMembers] using hnone⟩
    · have hne : m.1 ≠ name := fun heq => hnames.1 (heq ▸ List.mem_map_of_mem h)
      obtain ⟨i, hi⟩ := ih hnames.2 h (k + 1)
      exact ⟨i, by simpa [ofName, hvalue, hne, rereadMembers] using hi⟩

theorem fieldOr_rereadMembers (hnames : (members.map Prod.fst).Nodup) (h : (name, v) ∈ members)
    (absent : Fields α) (hread : read v.reread = .ok a) :
    ((rereadMembers members).fieldOr name absent read).Gives a := by
  obtain ⟨i, hi⟩ := exists_ofField_eq hnames h
  rw [Members.fieldOr, hi]
  show Fields.atPosition i (read v.reread) = .ok a
  rw [hread]
  rfl

theorem fieldBy_rereadMembers (hnames : (members.map Prod.fst).Nodup) (h : (name, v) ∈ members)
    (hread : read v.reread = .ok a) : ((rereadMembers members).fieldBy name read).Gives a :=
  fieldOr_rereadMembers hnames h _ hread

theorem field_rereadMembers [Stored α] (hnames : (members.map Prod.fst).Nodup)
    (h : (name, store a) ∈ members) (ha : Kept a) : ((rereadMembers members).field name).Gives a :=
  fieldOr_rereadMembers hnames h _ ha

theorem optionalField_rereadMembers [Stored α] {a : Option α}
    (hnames : (members.map Prod.fst).Nodup)
    (h : (name, store a) ∈ members) (ha : Kept a) :
    ((rereadMembers members).optionalField name).Gives a :=
  fieldOr_rereadMembers hnames h _ ha

/-- **A record is restored** if its fields are. -/
theorem restoreRecord_record {names : List String} {fields : Members → Fields α}
    (h : (fields (rereadMembers members)).Gives a) :
    restoreRecord names fields (JsonValue.record members).reread = .ok a := by
  have hnames : (rereadMembers members).checkNames = .ok () := by
    rw [Members.checkNames, List.findIdx?_eq_none_iff.mpr]
    · rfl
    · exact List.forall_mem_map.mpr fun _ _ => rfl
  rw [reread_record, restoreRecord]
  show Fields.finish ((fun a _ => a) <$> fields (rereadMembers members) <*>
    (rereadMembers members).checkNames) = .ok a
  rw [h, hnames]
  rfl

end Records

end RpkiAuthority.Stored
