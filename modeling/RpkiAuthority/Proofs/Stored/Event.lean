import RpkiAuthority.Proofs.Stored.Authority

/-!
# Which stored events are restored

Stored events are read in two steps: everything is kept as it is until the type is found
(`Stored.restore_event`), and only then the fields are restored. Nothing that is written for an
event is too large or too deep for the first step (`Stored.isPlain_store_event`). The second step
restores every field but one: the names of members are no longer read as AS numbers by then, so
providers are refused as soon as there is one (`Stored.restoreKeptProviders_store`).

So the events that come back are those that name no providers, and they come back as they were
(`AuthorityEvent.Storable.restored_unless_providers`). An event about removed ASPA entries that had
providers is written, but it cannot be read again.
-/

namespace RpkiAuthority

open Text

namespace Stored

/-! ### What can be kept until the type is found -/

section

variable {d : Nat} {elements : List JsonValue} {members : List (String × JsonValue)}

theorem isPlain_array :
    (JsonValue.array elements).isPlain (d + 1) = true ↔ ∀ v ∈ elements, v.isPlain d = true := by
  have hall : ∀ l, JsonValue.isPlain.all d l = true ↔ ∀ v ∈ l, v.isPlain d = true := by
    intro l
    induction l with
    | nil => exact iff_of_true rfl fun v hv => absurd hv List.not_mem_nil
    | cons v rest ih => rw [JsonValue.isPlain.all, Bool.and_eq_true, ih, List.forall_mem_cons]
  rw [JsonValue.isPlain, Nat.add_sub_cancel, Bool.and_eq_true, hall]
  exact and_iff_right (by simp)

theorem isPlain_record (h : ∀ m ∈ members, m.2.reread.isPlain d = true) :
    (JsonValue.record members).reread.isPlain (d + 1) = true := by
  have hall : ∀ l : List (String × JsonValue), (∀ m ∈ l, m.2.reread.isPlain d = true) →
      JsonValue.isPlain.allMembers d
        (l.map fun e => ((JsonString.of e.1).reread, e.2.reread)) = true := by
    intro l hl
    induction l with
    | nil => rfl
    | cons m rest ih =>
      obtain ⟨hm, hrest⟩ := List.forall_mem_cons.mp hl
      rw [List.map_cons, JsonValue.isPlain.allMembers, ih hrest, hm]
      rfl
  rw [reread_record, JsonValue.isPlain, Nat.add_sub_cancel, hall members h]
  simp

theorem isPlain_text (s : String) : (JsonValue.text s).reread.isPlain d = true := rfl

/-- Numbers of 64 bits are far from the range of doubles. -/
theorem isPlain_nat {n : Nat} (h : n ≤ max64) : (JsonValue.nat n).reread.isPlain d = true := by
  have hlength : (Nat.toDigits 10 n).length ≤ 20 :=
    Nat.toDigits_length 10 n 20 (by decide) (Nat.lt_of_le_of_lt h (by decide))
  show JsonNumber.isFiniteDecimal n 0 = true
  rw [JsonNumber.isFiniteDecimal, if_pos (.inr (by omega))]

theorem isPlain_asn (a : Asn) : (store a).reread.isPlain d = true :=
  isPlain_nat (Nat.le_trans (Nat.le_of_lt a.isLt) (by decide))

theorem isPlain_list {α : Type} [Stored α] {l : List α}
    (h : ∀ a ∈ l, (store a).reread.isPlain d = true) : (store l).reread.isPlain (d + 1) = true := by
  show (JsonValue.array (l.map store)).reread.isPlain (d + 1) = true
  rw [JsonValue.reread_array, isPlain_array, List.map_map]
  exact List.forall_mem_map.mpr h

theorem isPlain_route (r : AnnouncedRoute) : (store r).reread.isPlain (d + 1) = true :=
  isPlain_record <| by
    simp only [List.forall_mem_cons, List.not_mem_nil, false_imp_iff, implies_true, and_true]
    exact ⟨isPlain_asn r.asn, isPlain_text r.pfx.text⟩

theorem isPlain_providers (m : AspaProviders) : (store m).reread.isPlain (d + 1) = true :=
  isPlain_record (List.forall_mem_map.mpr fun e _ => isPlain_text (limitName e.2))

end

theorem isPlain_versionedId {v : VersionedId} {d : Nat} (hid : v.id ≤ max64)
    (hversion : v.version ≤ max64) : (store v).reread.isPlain (d + 1) = true :=
  isPlain_record <| by
    simp only [List.forall_mem_cons, List.not_mem_nil, false_imp_iff, implies_true, and_true]
    exact ⟨isPlain_nat hid, isPlain_nat hversion⟩

/-! ### The fields of events -/

theorem kept_versionedId {v : VersionedId} (hid : v.id ≤ max64) (hversion : v.version ≤ max64) :
    Kept v := by
  let members := [("id", JsonValue.nat v.id), ("version", .nat v.version)]
  have hnames : (members.map Prod.fst).Nodup := by simp [members]
  have hid' : ((rereadMembers members).fieldBy "id" restoreNat64).Gives v.id :=
    fieldBy_rereadMembers hnames (by simp [members]) (restoreNat64_nat hid)
  have hversion' : ((rereadMembers members).fieldBy "version" restoreNat64).Gives v.version :=
    fieldBy_rereadMembers hnames (by simp [members]) (restoreNat64_nat hversion)
  exact restoreRecord_record ((hid'.map _).seq hversion')

/-- **Providers are kept until the type is found only if there are none.** -/
theorem restoreKeptProviders_store (m : AspaProviders) :
    restoreKeptProviders (store m).reread = if m.entries = [] then .ok m else .refuse := by
  show restoreKeptProviders (storeMap asnKey m).reread = _
  rw [storeMap, reread_record]
  obtain ⟨entries, ascending⟩ := m
  cases entries with
  | nil => rfl
  | cons e rest => rfl

/-- An entry that was removed, in its stored form. -/
def storedEntry (e : Asn × AspaProviders) : JsonValue := .array [store e.1, store e.2]

theorem isPlain_storedEntry {d : Nat} (e : Asn × AspaProviders) :
    (storedEntry e).reread.isPlain (d + 2) = true := by
  rw [storedEntry, JsonValue.reread_array, isPlain_array]
  simp only [List.map_cons, List.map_nil, List.forall_mem_cons, List.not_mem_nil, false_imp_iff,
    implies_true, and_true]
  exact ⟨isPlain_asn e.1, isPlain_providers e.2⟩

theorem restoreKeptEntry_storedEntry (e : Asn × AspaProviders) :
    restoreKeptEntry (storedEntry e).reread = if e.2.entries = [] then .ok e else .refuse := by
  have hasn : (restore (store e.1).reread : Restored Asn) = .ok e.1 := kept_asn e.1
  rw [storedEntry, JsonValue.reread_array]
  simp only [List.map_cons, List.map_nil, restoreKeptEntry, hasn, restoreKeptProviders_store]
  split <;> rfl

/-- A field that is refused is the fault of its member. -/
theorem exists_fieldBy_eq_error {α : Type} {members : List (String × JsonValue)} {name : String}
    {v : JsonValue} {read : JsonValue → Restored α} (hnames : (members.map Prod.fst).Nodup)
    (h : (name, v) ∈ members) (hread : read v.reread = .refuse) :
    ∃ i, (rereadMembers members).fieldBy name read = .error (i, .refused ()) := by
  obtain ⟨i, hi⟩ := exists_ofField_eq hnames h
  refine ⟨i, ?_⟩
  rw [Members.fieldBy, Members.fieldOr, hi]
  show Fields.atPosition i (read v.reread) = _
  rw [hread]
  rfl

/-- A list of which members are refused for one cause is refused for it. -/
theorem mapM_ite {α : Type} (p : α → Prop) [DecidablePred p] (l : List α) :
    l.mapM (fun a => if p a then .ok a else (.refuse : Restored α)) =
      if ∀ a ∈ l, p a then .ok l else .refuse := by
  induction l with
  | nil => exact (if_pos fun a ha => absurd ha List.not_mem_nil).symm
  | cons a rest ih =>
    rw [List.mapM_cons, ih]
    simp only [List.forall_mem_cons]
    by_cases ha : p a
    · by_cases hrest : ∀ b ∈ rest, p b
      · rw [if_pos ha, if_pos hrest, if_pos ⟨ha, hrest⟩]
        rfl
      · rw [if_pos ha, if_neg hrest, if_neg (not_and_of_not_right _ hrest)]
        rfl
    · rw [if_neg ha, if_neg (not_and_of_not_left _ ha)]
      rfl

/-- **Removed entries come back as they were or not at all.** -/
theorem restoreKeptEntries_map (removed : List (Asn × AspaProviders)) :
    restoreKeptEntries (JsonValue.array (removed.map storedEntry)).reread =
      if ∀ e ∈ removed, e.2.entries = [] then .ok removed else .refuse := by
  have hentry : ∀ e : Asn × AspaProviders, restoreKeptEntry (storedEntry e).reread =
      if e.2.entries = [] then .ok e else .refuse := restoreKeptEntry_storedEntry
  rw [JsonValue.reread_array, List.map_map, restoreKeptEntries, ← mapM_ite, List.mapM_map]
  exact congrArg (List.mapM · removed) (funext hentry)

/-! ### Whole events -/

section

variable {type key : String} {a : VersionedId} {rest : List (String × JsonValue)}

/-- The members of an event: its type, its authority and what else is said of it. -/
def eventMembers (type : String) (a : VersionedId) (rest : List (String × JsonValue)) :
    List (String × JsonValue) :=
  ("type", .text type) :: ("ca", store a) :: rest

/-- **An event is restored from its fields** once its type is found. -/
theorem restore_event {fields : Fields AuthorityEvent} (hid : a.id ≤ max64)
    (hversion : a.version ≤ max64) (hnames : ((eventMembers type a rest).map Prod.fst).Nodup)
    (hrest : ∀ m ∈ rest, m.2.reread.isPlain 126 = true)
    (hfields : eventFields (rereadMembers (eventMembers type a rest)) type = some fields) :
    (restore (JsonValue.record (eventMembers type a rest)).reread : Restored AuthorityEvent) =
      fields.finish := by
  have hplain : (JsonValue.record (eventMembers type a rest)).reread.isPlain eventDepth = true :=
    isPlain_record <| List.forall_mem_cons.mpr ⟨isPlain_text type,
      List.forall_mem_cons.mpr ⟨isPlain_versionedId hid hversion, hrest⟩⟩
  obtain ⟨i, hi⟩ := exists_ofField_eq hnames List.mem_cons_self
  have htype : (rereadMembers (eventMembers type a rest)).ofField "type" =
      [(i, .string ⟨some type, type.toList.any Json.isEscaped⟩)] := hi
  rw [rereadMembers] at htype hfields
  rw [reread_record] at hplain ⊢
  simp only [restore, hplain, if_true, htype, hfields]

theorem field_ca (hid : a.id ≤ max64) (hversion : a.version ≤ max64)
    (hnames : ((eventMembers type a rest).map Prod.fst).Nodup) :
    ((rereadMembers (eventMembers type a rest)).field "ca").Gives a :=
  field_rereadMembers hnames (by simp [eventMembers]) (kept_versionedId hid hversion)

theorem kept_incomingCertificateUpdated {s : ResourceSet} (hid : a.id ≤ max64)
    (hversion : a.version ≤ max64) (hs : s.Canonical) :
    Kept (AuthorityEvent.incomingCertificateUpdated a key s) := by
  let type := "incoming_certificate_updated"
  let rest := [("key", store key), ("resources", store s)]
  have hnames : ((eventMembers type a rest).map Prod.fst).Nodup := by simp [eventMembers, rest]
  have hrest : ∀ m ∈ rest, m.2.reread.isPlain 126 = true := by
    simp only [rest, List.forall_mem_cons, List.not_mem_nil, false_imp_iff, implies_true, and_true]
    exact ⟨isPlain_text key, isPlain_text s.text⟩
  have hkey : ((rereadMembers (eventMembers type a rest)).field "key").Gives key :=
    field_rereadMembers hnames (by simp [eventMembers, rest]) (kept_string key)
  have hresources : ((rereadMembers (eventMembers type a rest)).field "resources").Gives s :=
    field_rereadMembers hnames (by simp [eventMembers, rest]) (kept_resources hs)
  have hfields :=
    (((field_ca hid hversion hnames).map AuthorityEvent.incomingCertificateUpdated).seq
      hkey).seq hresources
  exact (restore_event hid hversion hnames hrest rfl).trans (congrArg Fields.finish hfields)

theorem kept_incomingCertificateRevoked (hid : a.id ≤ max64) (hversion : a.version ≤ max64) :
    Kept (AuthorityEvent.incomingCertificateRevoked a key) := by
  let type := "incoming_certificate_revoked"
  let rest := [("key", store key)]
  have hnames : ((eventMembers type a rest).map Prod.fst).Nodup := by simp [eventMembers, rest]
  have hrest : ∀ m ∈ rest, m.2.reread.isPlain 126 = true :=
    List.forall_mem_singleton.mpr (isPlain_text key)
  have hkey : ((rereadMembers (eventMembers type a rest)).field "key").Gives key :=
    field_rereadMembers hnames (by simp [eventMembers, rest]) (kept_string key)
  have hfields :=
    ((field_ca hid hversion hnames).map AuthorityEvent.incomingCertificateRevoked).seq hkey
  exact (restore_event hid hversion hnames hrest rfl).trans (congrArg Fields.finish hfields)

theorem kept_ignoredRoutesRemoved {removed : List AnnouncedRoute} (hid : a.id ≤ max64)
    (hversion : a.version ≤ max64) : Kept (AuthorityEvent.ignoredRoutesRemoved a removed) := by
  let type := "roa_alert_ignored_announced_routes_updated"
  let rest := [("removed", store removed)]
  have hnames : ((eventMembers type a rest).map Prod.fst).Nodup := by simp [eventMembers, rest]
  have hrest : ∀ m ∈ rest, m.2.reread.isPlain 126 = true :=
    List.forall_mem_singleton.mpr (isPlain_list fun r _ => isPlain_route r)
  have hremoved : ((rereadMembers (eventMembers type a rest)).field "removed").Gives removed :=
    field_rereadMembers hnames (by simp [eventMembers, rest]) (kept_list fun r _ => kept_route r)
  have hfields :=
    ((field_ca hid hversion hnames).map AuthorityEvent.ignoredRoutesRemoved).seq hremoved
  exact (restore_event hid hversion hnames hrest rfl).trans (congrArg Fields.finish hfields)

/-- **Events about removed entries come back** only if these had no providers. -/
theorem restore_aspaEntriesRemoved (removed : List (Asn × AspaProviders)) (hid : a.id ≤ max64)
    (hversion : a.version ≤ max64) :
    restore (store (AuthorityEvent.aspaEntriesRemoved a removed)).reread =
      if ∀ e ∈ removed, e.2.entries = [] then .ok (AuthorityEvent.aspaEntriesRemoved a removed)
      else .refuse := by
  let type := "aspa_configuration_updated_due_to_changed_resources"
  let rest := [("removed", JsonValue.array (removed.map storedEntry))]
  have hnames : ((eventMembers type a rest).map Prod.fst).Nodup := by simp [eventMembers, rest]
  have hrest : ∀ m ∈ rest, m.2.reread.isPlain 126 = true := by
    refine List.forall_mem_singleton.mpr ?_
    rw [JsonValue.reread_array, isPlain_array, List.map_map]
    exact List.forall_mem_map.mpr fun e _ => isPlain_storedEntry e
  have hmem :
      ("removed", JsonValue.array (removed.map storedEntry)) ∈ eventMembers type a rest := by
    simp [eventMembers, rest]
  have hca := (field_ca hid hversion hnames).map AuthorityEvent.aspaEntriesRemoved
  have hread := restoreKeptEntries_map removed
  refine (restore_event hid hversion hnames hrest rfl).trans ?_
  by_cases hall : ∀ e ∈ removed, e.2.entries = []
  · rw [if_pos hall] at hread ⊢
    exact congrArg Fields.finish (hca.seq (fieldBy_rereadMembers hnames hmem hread))
  · rw [if_neg hall] at hread ⊢
    obtain ⟨i, hi⟩ := exists_fieldBy_eq_error hnames hmem hread
    rw [hca, hi]
    rfl

end

end Stored

namespace AuthorityEvent

open Stored

variable {e : AuthorityEvent}

/-- **An event that storage can hold**: the numbers of its authority have 64 bits, and its resources
are in normal form. -/
structure Storable (e : AuthorityEvent) : Prop where
  id_le : e.authority.id ≤ max64
  version_le : e.authority.version ≤ max64
  canonical : ∀ a key s, e = .incomingCertificateUpdated a key s → s.Canonical

/-- **The event names providers**: it removes an entry that has some. -/
def NamesProviders : AuthorityEvent → Prop
  | .aspaEntriesRemoved _ removed => ¬∀ entry ∈ removed, entry.2.entries = []
  | _ => False

instance : DecidablePred NamesProviders
  | .aspaEntriesRemoved _ removed =>
    inferInstanceAs (Decidable ¬∀ entry ∈ removed, entry.2.entries = [])
  | .incomingCertificateUpdated .. | .incomingCertificateRevoked .. | .ignoredRoutesRemoved .. =>
    inferInstanceAs (Decidable False)

/-- **Events come back as they were or not at all.** -/
theorem Storable.restore_reread (h : e.Storable) :
    restore (store e).reread = if e.NamesProviders then .refuse else .ok e := by
  obtain ⟨hid, hversion, hcanonical⟩ := h
  cases e with
  | incomingCertificateUpdated a key s =>
    exact kept_incomingCertificateUpdated hid hversion (hcanonical a key s rfl)
  | incomingCertificateRevoked a key => exact kept_incomingCertificateRevoked hid hversion
  | ignoredRoutesRemoved a removed => exact kept_ignoredRoutesRemoved hid hversion
  | aspaEntriesRemoved a removed =>
    exact (restore_aspaEntriesRemoved removed hid hversion).trans (ite_not _ _ _).symm

/-- **Stored events are restored from their text unless they name providers**: those are refused. -/
theorem Storable.restored_unless_providers (h : e.Storable) :
    (Json.parse (Json.write (store e))).map restore =
      some (if e.NamesProviders then .refuse else .ok e) := by
  rw [Json.parse_write, Option.map_some, h.restore_reread]

/-- Resources and keys of any kind come back, and so do removed entries that had no providers. -/
theorem Storable.restored_unless_providers_none :
    ∃ e f : AuthorityEvent, e.Storable ∧ f.Storable ∧
      e = .incomingCertificateUpdated ⟨1, 2⟩ "a \"key\"\n"
        ⟨[⟨64496, 64511⟩], [⟨0x0a000000 <<< 96, (0x0b000000 <<< 96) - 1⟩], [⟨1, 1⟩]⟩ ∧
      f = .aspaEntriesRemoved ⟨1, 2⟩
        [(⟨1, by decide⟩, OrdMap.empty), (⟨2, by decide⟩, OrdMap.empty)] ∧
      (Json.parse (Json.write (store e))).map restore = some (.ok e) ∧
      (Json.parse (Json.write (store f))).map restore = some (.ok f) := by
  let s : ResourceSet :=
    ⟨[⟨64496, 64511⟩], [⟨0x0a000000 <<< 96, (0x0b000000 <<< 96) - 1⟩], [⟨1, 1⟩]⟩
  have hs : s.Canonical := by decide
  let e : AuthorityEvent := .incomingCertificateUpdated ⟨1, 2⟩ "a \"key\"\n" s
  let f : AuthorityEvent :=
    .aspaEntriesRemoved ⟨1, 2⟩ [(⟨1, by decide⟩, OrdMap.empty), (⟨2, by decide⟩, OrdMap.empty)]
  have he : e.Storable := ⟨by decide, by decide, fun _ _ _ heq =>
    (AuthorityEvent.incomingCertificateUpdated.inj heq).2.2 ▸ hs⟩
  have hf : f.Storable := ⟨by decide, by decide, nofun⟩
  exact ⟨e, f, he, hf, rfl, rfl, he.restored_unless_providers, hf.restored_unless_providers⟩

/-- An event that removes a customer with a provider is refused. -/
theorem not_restored_with_providers :
    ∃ e : AuthorityEvent, e.Storable ∧
      e = .aspaEntriesRemoved ⟨1, 2⟩
        [(⟨1, by decide⟩, OrdMap.empty.insert ⟨2, by decide⟩ AspaLimit.any)] ∧
      Json.write (store e) =
        "\x7b\"type\":\"aspa_configuration_updated_due_to_changed_resources\"," ++
        "\"ca\":\x7b\"id\":1,\"version\":2\x7d,\"removed\":[[1,\x7b\"2\":\"ANY\"\x7d]]\x7d" ∧
      (Json.parse (Json.write (store e))).map restore =
        some (.refuse : Restored AuthorityEvent) := by
  let e : AuthorityEvent := .aspaEntriesRemoved ⟨1, 2⟩
    [(⟨1, by decide⟩, OrdMap.empty.insert ⟨2, by decide⟩ AspaLimit.any)]
  have h : e.Storable := ⟨by decide, by decide, nofun⟩
  refine ⟨e, h, rfl, rfl, ?_⟩
  rw [Json.parse_write, Option.map_some, h.restore_reread]
  rfl

end AuthorityEvent

end RpkiAuthority
