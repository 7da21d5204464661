import RpkiAuthority.Proofs.Resource.Cut
import RpkiAuthority.Stored.Authority

/-!
# Where restoring breaks off

Resources are stored as text, so restoring them breaks off where reading their text does
(`Stored.breaksOff_resources_iff`). Whatever else is stored only hands that on: members of lists and
maps, and fields of records, break off one by one, and none of them makes it up
(`Stored.OnlyWhereCut`). So an authority or an event breaks off only over a text of resources in its
stored form that does.
-/

namespace RpkiAuthority

open Text Reading

/-- **A text occurs in a value**, not counting the names of members. -/
inductive JsonValue.HasText (s : String) : JsonValue → Prop where
  | here (escaped : Bool) : HasText s (.string ⟨some s, escaped⟩)
  | element {v : JsonValue} {elements : List JsonValue} (hv : v ∈ elements) (h : HasText s v) :
    HasText s (.array elements)
  | member {m : JsonString × JsonValue} {members : List (JsonString × JsonValue)}
    (hm : m ∈ members) (h : HasText s m.2) : HasText s (.object members)

namespace Stored

variable {α β : Type}

/-- Resources that cannot be read occur in a value. -/
def HasCut (v : JsonValue) : Prop := ∃ s, v.HasText s ∧ (ResourceSet.read s).BreaksOff

/-- **Restoring breaks off only where reading resources does.** -/
def OnlyWhereCut (read : JsonValue → Restored α) : Prop := ∀ v, (read v).BreaksOff → HasCut v

/-! ### Simple values -/

theorem OnlyWhereCut.of_not {read : JsonValue → Restored α} (h : ∀ v, ¬(read v).BreaksOff) :
    OnlyWhereCut read :=
  fun v hv => absurd hv (h v)

theorem breaksOff_text_iff {read : String → Restored α} {v : JsonValue} :
    (restoreText read v).BreaksOff ↔ ∃ s e, v = .string ⟨some s, e⟩ ∧ (read s).BreaksOff := by
  rcases v with _ | _ | _ | ⟨_ | s, e⟩ | _ | _
  case string.some =>
    refine ⟨fun h => ⟨s, e, rfl, h⟩, ?_⟩
    rintro ⟨_, _, ⟨⟩, h⟩
    exact h
  all_goals exact iff_of_false nofun fun ⟨_, _, heq, _⟩ => nomatch heq

/-- **Stored resources break off** exactly where their text does. -/
theorem breaksOff_resources_iff {v : JsonValue} : (restore v : Restored ResourceSet).BreaksOff ↔
    ∃ s e, v = .string ⟨some s, e⟩ ∧ (ResourceSet.read s).BreaksOff := by
  refine breaksOff_text_iff.trans ?_
  simp only [breaksOff_mapCause]

theorem onlyWhereCut_resources : OnlyWhereCut (restore : JsonValue → Restored ResourceSet) := by
  rintro v h
  obtain ⟨s, e, rfl, hs⟩ := breaksOff_resources_iff.mp h
  exact ⟨s, .here e, hs⟩

theorem not_breaksOff_bool (v : JsonValue) : ¬(restore v : Restored Bool).BreaksOff := by
  cases v <;> exact nofun

theorem not_breaksOff_string (v : JsonValue) : ¬(restore v : Restored String).BreaksOff := by
  rcases v with _ | _ | _ | ⟨_ | _, _⟩ | _ | _ <;> exact nofun

theorem not_breaksOff_nat64 (v : JsonValue) : ¬(restoreNat64 v).BreaksOff := by
  rw [restoreNat64]
  fun_cases restoreNat max64 v <;> exact nofun

theorem not_breaksOff_name {read : String → Option α} (v : JsonValue) :
    ¬(restoreName read v).BreaksOff := by
  fun_cases restoreName read v
  · exact not_breaksOff_ofOption
  · exact not_breaksOff_ofOption
  · exact nofun

theorem not_breaksOff_asn (v : JsonValue) : ¬(restore v : Restored Asn).BreaksOff := by
  rcases v with _ | _ | ⟨_ | _⟩ | _ | _ | _
  case number.natural n => exact not_breaksOff_ofOption
  all_goals exact nofun

theorem not_breaksOff_pfx (v : JsonValue) : ¬(restore v : Restored Prefix).BreaksOff := by
  intro h
  obtain ⟨s, _, -, h⟩ := breaksOff_text_iff.mp h
  rw [breaksOff_mapCause] at h
  cases hs : Prefix.parse s <;> rw [hs] at h <;> exact nomatch h

theorem not_breaksOff_uuid (v : JsonValue) : ¬(restore v : Restored Uuid).BreaksOff := by
  intro h
  obtain ⟨s, _, -, h⟩ := breaksOff_text_iff.mp h
  exact not_breaksOff_ofOption h

/-! ### Collections -/

section

variable [Stored α]

theorem onlyWhereCut_option (h : OnlyWhereCut (restore : JsonValue → Restored α)) :
    OnlyWhereCut (restore : JsonValue → Restored (Option α)) := by
  intro v hv
  cases v with
  | null => exact nomatch hv
  | _ => exact h _ (breaksOff_map.mp hv)

theorem onlyWhereCut_array {read : JsonValue → Restored β} (h : OnlyWhereCut read)
    {elements : List JsonValue} (hread : (elements.mapM read).BreaksOff) :
    HasCut (.array elements) := by
  obtain ⟨before, v, after, rfl, -, hv⟩ := mapM_eq_error_iff.mp hread
  obtain ⟨s, hs, hcut⟩ := h v hv
  exact ⟨s, .element (by simp) hs, hcut⟩

theorem onlyWhereCut_list (h : OnlyWhereCut (restore : JsonValue → Restored α)) :
    OnlyWhereCut (restore : JsonValue → Restored (List α)) := by
  rintro (_ | _ | _ | _ | elements | _) hv
  case array => exact onlyWhereCut_array h hv
  all_goals exact nomatch hv

theorem onlyWhereCut_set [Ord α] [Std.TransOrd α] [Std.LawfulEqOrd α]
    (h : OnlyWhereCut (restore : JsonValue → Restored α)) :
    OnlyWhereCut (restore : JsonValue → Restored (OrdSet α)) :=
  fun v hv => onlyWhereCut_list h v (breaksOff_map.mp hv)

theorem onlyWhereCut_map {κ : Type} [Ord κ] [Std.TransOrd κ] [Std.LawfulEqOrd κ]
    (h : OnlyWhereCut (restore : JsonValue → Restored α)) (key : JsonString → Option κ) :
    OnlyWhereCut (restoreMap key : JsonValue → Restored (OrdMap κ α)) := by
  rintro (_ | _ | _ | _ | _ | members) hv
  case object =>
    obtain ⟨before, m, after, rfl, -, hm⟩ := mapM_eq_error_iff.mp (bind_pure_eq_error_iff.mp hv)
    obtain hkey | ⟨k, -, hm⟩ := bind_eq_error_iff.mp hm
    · exact absurd hkey not_breaksOff_ofOption
    · obtain ⟨s, hs, hcut⟩ := h m.2 (bind_pure_eq_error_iff.mp hm)
      exact ⟨s, .member (by simp) hs, hcut⟩
  all_goals exact nomatch hv

end

/-! ### Records -/

namespace Fields

/-- A field breaks off. -/
def BreaksOff (x : Fields α) : Prop := ∃ i, x = .error (i, .aborted)

theorem not_breaksOff_pure (a : α) : ¬(pure a : Fields α).BreaksOff := nofun

theorem BreaksOff.seq {f : Fields (α → β)} {x : Fields α} (h : (f <*> x).BreaksOff) :
    f.BreaksOff ∨ x.BreaksOff := by
  obtain ⟨i, h⟩ := h
  cases f with
  | ok g =>
    cases x with
    | ok a => exact nomatch h
    | error e => exact .inr ⟨i, congrArg _ (Except.error.inj h)⟩
  | error d =>
    cases x with
    | ok a => exact .inl ⟨i, congrArg _ (Except.error.inj h)⟩
    | error e =>
      have hfirst : (if e.1 < d.1 then e else d) = (i, .aborted) := Except.error.inj h
      split at hfirst
      · exact .inr ⟨i, congrArg _ hfirst⟩
      · exact .inl ⟨i, congrArg _ hfirst⟩

theorem BreaksOff.map {f : α → β} {x : Fields α} (h : (f <$> x).BreaksOff) : x.BreaksOff :=
  (BreaksOff.seq h).resolve_left (not_breaksOff_pure f)

theorem BreaksOff.of_finish {x : Fields α} (h : x.finish.BreaksOff) : x.BreaksOff := by
  cases x with
  | ok a => exact nomatch h
  | error e => exact ⟨e.1, congrArg (fun fault => Except.error (e.1, fault)) (Except.error.inj h)⟩

theorem BreaksOff.of_atPosition {i : Nat} {x : Restored α} (h : (atPosition i x).BreaksOff) :
    Reading.BreaksOff x := by
  obtain ⟨_, h⟩ := h
  cases x with
  | ok a => exact nomatch h
  | error e => exact congrArg _ (Prod.mk.inj (Except.error.inj h)).2

end Fields

/-- The values of the members of a record occur in a value. -/
def Members.Within (m : Members) (v : JsonValue) : Prop :=
  ∀ e ∈ m.list, ∀ s, e.2.HasText s → v.HasText s

/-- **Some fields break off only where reading resources does.** -/
def FieldsOnlyWhereCut (fields : Members → Fields α) : Prop :=
  ∀ m v, m.Within v → (fields m).BreaksOff → HasCut v

section

variable {fields : Members → Fields α} {read : JsonValue → Restored α}

theorem FieldsOnlyWhereCut.map (h : FieldsOnlyWhereCut fields) (f : α → β) :
    FieldsOnlyWhereCut fun m => f <$> fields m :=
  fun m v hm hb => h m v hm hb.map

theorem FieldsOnlyWhereCut.seq {functions : Members → Fields (α → β)}
    (hf : FieldsOnlyWhereCut functions) (hx : FieldsOnlyWhereCut fields) :
    FieldsOnlyWhereCut fun m => functions m <*> fields m :=
  fun m v hm hb => hb.seq.elim (hf m v hm) (hx m v hm)

theorem fieldsOnlyWhereCut_fieldOr (h : OnlyWhereCut read) {absent : Members → Fields α}
    (habsent : ∀ m, ¬(absent m).BreaksOff) (name : String) :
    FieldsOnlyWhereCut fun m => m.fieldOr name (absent m) read := by
  intro m v hm hb
  have hfield : ∀ {i : Nat} {w : JsonValue}, (i, w) ∈ m.ofField name → (read w).BreaksOff →
      HasCut v := by
    intro i w hw hread
    obtain ⟨⟨e, k⟩, he, hname⟩ := List.mem_filterMap.mp hw
    rw [Option.ite_none_right_eq_some] at hname
    obtain ⟨-, heq⟩ := hname
    obtain ⟨rfl, rfl⟩ := Prod.mk.inj (Option.some.inj heq)
    obtain ⟨s, hs, hcut⟩ := h _ hread
    exact ⟨s, hm e (List.fst_mem_of_mem_zipIdx he) s hs, hcut⟩
  replace hb : (m.fieldOr name (absent m) read).BreaksOff := hb
  rw [Members.fieldOr] at hb
  split at hb
  · exact absurd hb (habsent m)
  · next heq => exact hfield (heq ▸ List.mem_cons_self) (Fields.BreaksOff.of_atPosition hb)
  · next heq =>
    rcases hb.seq with hb | ⟨_, hb⟩
    · exact hfield (heq ▸ List.mem_cons_self) (Fields.BreaksOff.of_atPosition hb.map)
    · exact nomatch hb

theorem onlyWhereCut_record (h : FieldsOnlyWhereCut fields) (names : List String) :
    OnlyWhereCut (restoreRecord names fields) := by
  -- a fault of the whole record is one of its fields, or a refusal
  have hfields : ∀ {m : Members} {v : JsonValue} {rest : Fields Unit},
      m.Within v → ¬rest.BreaksOff →
      ((fun a _ => a) <$> fields m <*> rest).finish.BreaksOff → HasCut v := fun hm hrest hb =>
    h _ _ hm ((Fields.BreaksOff.of_finish hb).seq.resolve_right hrest).map
  rintro (_ | _ | _ | _ | elements | members) hv
  case array =>
    refine hfields (fun e he s hs => .element (List.of_mem_zip he).2 hs) ?_ hv
    rintro ⟨i, hb⟩
    rcases Nat.lt_or_ge names.length elements.length with hlt | hge
    · exact nomatch (if_pos hlt).symm.trans hb
    · exact nomatch (if_neg (Nat.not_lt.mpr hge)).symm.trans hb
  case object =>
    refine hfields (fun e he s hs => .member he hs) ?_ hv
    rintro ⟨i, hb⟩
    rw [Members.checkNames] at hb
    split at hb
    · exact nomatch hb
    · exact nomatch hb
  all_goals exact nomatch hv

theorem fieldsOnlyWhereCut_fieldBy (h : OnlyWhereCut read) (name : String) :
    FieldsOnlyWhereCut fun m => m.fieldBy name read :=
  fieldsOnlyWhereCut_fieldOr h (fun _ ⟨_, hb⟩ => nomatch hb) name

theorem fieldsOnlyWhereCut_optionalField [Stored α]
    (h : OnlyWhereCut (restore : JsonValue → Restored (Option α))) (name : String) :
    FieldsOnlyWhereCut fun m => (m.optionalField name : Fields (Option α)) := by
  refine fieldsOnlyWhereCut_fieldOr h (fun m => ?_) name
  rintro ⟨i, hb⟩
  split at hb
  · exact nomatch hb
  · exact nomatch hb

end

/-! ### Authorities and events -/

theorem onlyWhereCut_route : OnlyWhereCut (restore : JsonValue → Restored AnnouncedRoute) :=
  onlyWhereCut_record (((fieldsOnlyWhereCut_fieldBy (.of_not not_breaksOff_asn) "asn").map _).seq
    (fieldsOnlyWhereCut_fieldBy (.of_not not_breaksOff_pfx) "prefix")) _

theorem onlyWhereCut_subscription :
    OnlyWhereCut (restore : JsonValue → Restored AlertSubscription) := by
  have hemails : OnlyWhereCut (restore : JsonValue → Restored (OrdSet String)) :=
    onlyWhereCut_set (.of_not not_breaksOff_string)
  have hstates : OnlyWhereCut (restore : JsonValue → Restored (OrdSet RouteValidity)) :=
    onlyWhereCut_set (.of_not not_breaksOff_name)
  have hfrequency : OnlyWhereCut (restore : JsonValue → Restored AlertFrequency) :=
    .of_not not_breaksOff_name
  exact onlyWhereCut_record ((((fieldsOnlyWhereCut_fieldBy hemails "emails").map _).seq
    (fieldsOnlyWhereCut_fieldBy hstates "route_validity_states")).seq
      (fieldsOnlyWhereCut_fieldBy hfrequency "frequency")) _

theorem onlyWhereCut_alerts : OnlyWhereCut (restore : JsonValue → Restored AlertConfiguration) := by
  have hnotify : OnlyWhereCut (restore : JsonValue → Restored Bool) := .of_not not_breaksOff_bool
  have hignored : OnlyWhereCut (restore : JsonValue → Restored (OrdSet AnnouncedRoute)) :=
    onlyWhereCut_set onlyWhereCut_route
  exact onlyWhereCut_record
    ((((fieldsOnlyWhereCut_optionalField (onlyWhereCut_option onlyWhereCut_subscription)
      "subscription").map _).seq (fieldsOnlyWhereCut_fieldBy hnotify "notify_on_roa_changes")).seq
        (fieldsOnlyWhereCut_fieldBy hignored "ignored")) _

theorem onlyWhereCut_aspa : OnlyWhereCut (restore : JsonValue → Restored AspaConfiguration) := by
  have hlimit : OnlyWhereCut (restore : JsonValue → Restored AspaLimit) :=
    .of_not not_breaksOff_name
  have hproviders : OnlyWhereCut (restore : JsonValue → Restored AspaProviders) :=
    onlyWhereCut_map hlimit readAsnKey
  exact onlyWhereCut_map hproviders readAsnKey

/-- **A stored authority breaks off** only over resources that do. -/
theorem onlyWhereCut_authority :
    OnlyWhereCut (restore : JsonValue → Restored CertificateAuthority) := by
  have hnumber : OnlyWhereCut restoreNat64 := .of_not not_breaksOff_nat64
  have hname : OnlyWhereCut (restore : JsonValue → Restored String) := .of_not not_breaksOff_string
  have huuid : OnlyWhereCut (restore : JsonValue → Restored Uuid) := .of_not not_breaksOff_uuid
  have hincoming : OnlyWhereCut (restore : JsonValue → Restored (OrdMap String ResourceSet)) :=
    onlyWhereCut_map onlyWhereCut_resources JsonString.value
  have hupdated : OnlyWhereCut (restore : JsonValue → Restored Bool) := .of_not not_breaksOff_bool
  have hfields := (((fieldsOnlyWhereCut_fieldBy hnumber "id").map CertificateAuthority.mk).seq
    (fieldsOnlyWhereCut_fieldBy hnumber "version")).seq (fieldsOnlyWhereCut_fieldBy hname "name")
  have hfields := ((hfields.seq (fieldsOnlyWhereCut_fieldBy huuid "uuid")).seq
    (fieldsOnlyWhereCut_fieldBy hincoming "incoming")).seq
      (fieldsOnlyWhereCut_fieldBy hupdated "configuration_updated")
  exact onlyWhereCut_record ((hfields.seq (fieldsOnlyWhereCut_optionalField
    (onlyWhereCut_option onlyWhereCut_alerts) "roa_alerts")).seq
      (fieldsOnlyWhereCut_fieldBy onlyWhereCut_aspa "aspa")) _

theorem onlyWhereCut_versionedId : OnlyWhereCut (restore : JsonValue → Restored VersionedId) := by
  have hnumber : OnlyWhereCut restoreNat64 := .of_not not_breaksOff_nat64
  exact onlyWhereCut_record (((fieldsOnlyWhereCut_fieldBy hnumber "id").map _).seq
    (fieldsOnlyWhereCut_fieldBy hnumber "version")) _

theorem not_breaksOff_keptProviders (v : JsonValue) : ¬(restoreKeptProviders v).BreaksOff := by
  fun_cases restoreKeptProviders v <;> exact nofun

theorem not_breaksOff_keptEntry (v : JsonValue) : ¬(restoreKeptEntry v).BreaksOff := by
  fun_cases restoreKeptEntry v
  · intro h
    obtain h | ⟨_, -, h⟩ := bind_eq_error_iff.mp h
    · exact not_breaksOff_asn _ h
    · exact not_breaksOff_keptProviders _ (bind_pure_eq_error_iff.mp h)
  · exact nofun

theorem onlyWhereCut_keptEntries : OnlyWhereCut restoreKeptEntries := by
  rintro (_ | _ | _ | _ | elements | _) hv
  case array => exact onlyWhereCut_array (.of_not not_breaksOff_keptEntry) hv
  all_goals exact nomatch hv

/-- The fields of events of every type. -/
theorem hasCut_of_eventFields {m : Members} {v : JsonValue} {type : String}
    {fields : Fields AuthorityEvent} (hm : m.Within v) (h : eventFields m type = some fields)
    (hb : fields.BreaksOff) : HasCut v := by
  have hca := fieldsOnlyWhereCut_fieldBy onlyWhereCut_versionedId "ca"
  have hkey := fieldsOnlyWhereCut_fieldBy
    (.of_not not_breaksOff_string : OnlyWhereCut (restore : JsonValue → Restored String)) "key"
  have hresources := fieldsOnlyWhereCut_fieldBy onlyWhereCut_resources "resources"
  have hroutes := fieldsOnlyWhereCut_fieldBy (onlyWhereCut_list onlyWhereCut_route) "removed"
  have hentries := fieldsOnlyWhereCut_fieldBy onlyWhereCut_keptEntries "removed"
  rw [eventFields.eq_def] at h
  split at h
  · obtain rfl := Option.some.inj h
    exact (((hca.map _).seq hkey).seq hresources) m v hm hb
  · obtain rfl := Option.some.inj h
    exact ((hca.map _).seq hkey) m v hm hb
  · obtain rfl := Option.some.inj h
    exact ((hca.map _).seq hroutes) m v hm hb
  · obtain rfl := Option.some.inj h
    exact ((hca.map _).seq hentries) m v hm hb
  · exact nomatch h

/-- **A stored event breaks off** only over resources that do. -/
theorem onlyWhereCut_event : OnlyWhereCut (restore : JsonValue → Restored AuthorityEvent) := by
  intro v hv
  simp only [restore] at hv
  split at hv
  · split at hv
    · next members =>
      split at hv
      · split at hv
        · next hfields =>
          exact hasCut_of_eventFields (fun e he s hs => .member he hs) hfields (.of_finish hv)
        · exact nomatch hv
      · exact nomatch hv
    · exact nomatch hv
  · exact nomatch hv

end Stored

/-! ### All readers -/

open Stored in
/-- **Readers break off exactly where the text of an AS number is cut**: it has more than two bytes,
and the second one is not the last of a character. Everything else is read or refused. A list is
read up to its first member at fault; data of route collectors has no other fault than lines that
are not in UTF-8; and what is stored breaks off over the text of resources only. -/
theorem Reading.breaksOff_where_cut (s : String) (l : List Char) (v : JsonValue)
    (bytes : List UInt8) :
    ((Asn.parse s).BreaksOff ↔ Asn.IsCut (trimmed s.toList)) ∧
      ((ResourceSet.read s).BreaksOff ↔
        FirstFault ResourceSet.readItem ResourceSet.ItemIsCut (ResourceSet.items s.toList)) ∧
      ((AspaProvider.read l).BreaksOff ↔ AspaProvider.IsCut l) ∧
      ((AspaEntry.read l).BreaksOff ↔ AspaEntry.IsCut l) ∧
      ((restore v : Restored ResourceSet).BreaksOff ↔
        ∃ s e, v = .string ⟨some s, e⟩ ∧ (ResourceSet.read s).BreaksOff) ∧
      ((restore v : Restored CertificateAuthority).BreaksOff → HasCut v) ∧
      ((restore v : Restored AuthorityEvent).BreaksOff → HasCut v) ∧
      ((Riswhois.read s).BreaksOff ↔ ∃ line ∈ piecesAt '\n' s.toList, Riswhois.LineIsCut line) ∧
      (∀ cause, Riswhois.read s ≠ .error (.refused cause)) ∧
      ((Riswhois.readBytes bytes).BreaksOff ↔
        FirstFault Riswhois.readByteLine Riswhois.ByteLineIsCut (Riswhois.byteLines bytes)) ∧
      (∀ cause, Riswhois.readBytes bytes = .error (.refused cause) ↔
        FirstFault Riswhois.readByteLine (fun line => String.fromUTF8? line.toByteArray = none)
          (Riswhois.byteLines bytes)) ∧
      (Asn.IsCut l → ∃ c ∈ l, 1 < c.utf8Size) :=
  ⟨Asn.breaksOff_parse_iff, ResourceSet.breaksOff_read_iff, AspaProvider.breaksOff_read_iff,
    AspaEntry.breaksOff_read_iff, breaksOff_resources_iff, onlyWhereCut_authority v,
    onlyWhereCut_event v, Riswhois.breaksOff_read_iff, Riswhois.read_ne_refused s,
    Riswhois.breaksOff_readBytes_iff, fun _ => Riswhois.readBytes_eq_refused_iff,
    Asn.IsCut.exists_large⟩

/-- A sign of three bytes in front of a number breaks off every reader, and so does a sign of two
bytes behind one letter. -/
theorem Reading.breaksOff_threeBytes :
    (Asn.parse "€12").BreaksOff ∧ (Asn.parse "aé1").BreaksOff ∧
      (ResourceSet.read "AS1, €12-€13").BreaksOff ∧
      (AspaProvider.read "€12 (v4)".toList).BreaksOff ∧
      (AspaEntry.read "AS1 => AS2, €12".toList).BreaksOff ∧
      (restore (.text "€12") : Restored ResourceSet).BreaksOff ∧
      (Riswhois.read "€12 10.0.0.0/8 5").BreaksOff :=
  ⟨rfl, rfl, rfl, rfl, rfl, rfl, rfl⟩

end RpkiAuthority
