import Mathlib.Data.List.Dedup
import RpkiAuthority.Proofs.Bgp.Matching

/-!
# Loading announcements again

Data is loaded as a whole, and what was loaded before does not matter. Of the last data it matters
only which announcements are retained, not their order and not how often each of them comes: two
indexes with the same filter and the same retained announcements have the same size and give the
same answers (`AnnouncementIndex.loaded_alike`). For sets of resources that are not in normal form
there is no other account of the answers than the one prefix by prefix, and that is enough: what is
found for a prefix was told in terms of the members of a list alone (`IndexOf.mem_containedIn`,
`IndexOf.mem_aroundGaps`).

The size counts what is listed, prefix by prefix. It is the number of different retained
announcements, because nothing is listed twice: not for one prefix (`FamilyIndex.Unrepeated`), and
not for two, since an announcement tells its prefix.
-/

namespace RpkiAuthority

variable {f : Family} {entries entries' : List RisEntry} {p : Prefix} {e : RisEntry} {n : Nat}

/-- Which announcement is nearest does not depend on their order or repetition. -/
theorem RisEntry.isNearest_congr (same : ∀ d, d ∈ entries ↔ d ∈ entries') :
    e.IsNearest entries n ↔ e.IsNearest entries' n := by
  simp only [RisEntry.IsNearest, same]

namespace FamilyIndex

variable {index index' : FamilyIndex}

/-! ### Answers -/

theorem IndexOf.mem_containedIn_congr (h : IndexOf index f entries) (h' : IndexOf index' f entries')
    (same : ∀ d, d ∈ entries ↔ d ∈ entries') :
    e ∈ index.containedIn p ↔ e ∈ index'.containedIn p := by
  rw [h.mem_containedIn, h'.mem_containedIn, same]

theorem IndexOf.mem_aroundGaps_congr (h : IndexOf index f entries) (h' : IndexOf index' f entries')
    (same : ∀ d, d ∈ entries ↔ d ∈ entries') (hp : p.family = f) :
    e ∈ index.aroundGaps p ↔ e ∈ index'.aroundGaps p := by
  rw [h.mem_aroundGaps hp, h'.mem_aroundGaps hp, same]
  simp only [RisEntry.isNearest_congr same]

/-! ### Nothing is listed twice -/

/-- For no prefix an announcement is listed twice. -/
def Unrepeated (index : FamilyIndex) : Prop := ∀ p l, index.find? p = some l → l.Nodup

theorem unrepeated_empty : Unrepeated OrdMap.empty := fun _ _ h => nomatch h

/-- A further announcement is not listed if it is known. -/
theorem Unrepeated.add (h : index.Unrepeated) (e : RisEntry) :
    Unrepeated (if e ∈ (index.find? e.pfx).getD [] then index
      else index.insert e.pfx ((index.find? e.pfx).getD [] ++ [e])) := by
  split
  · exact h
  · next hnew =>
    intro p l hfind
    rw [OrdMap.find?_insert_eq_some_iff] at hfind
    rcases hfind with ⟨rfl, rfl⟩ | ⟨-, hfind⟩
    · have hknown : ((index.find? e.pfx).getD []).Nodup := by
        cases hl : index.find? e.pfx with
        | none => exact List.nodup_nil
        | some l => exact h _ l hl
      rw [List.nodup_append]
      refine ⟨hknown, List.nodup_singleton e, fun d hd d' hd' heq => hnew ?_⟩
      exact heq.trans (List.mem_singleton.mp hd') ▸ hd
    · exact h p l hfind

theorem unrepeated_build (entries : List RisEntry) : (build entries).Unrepeated := by
  have hfold : ∀ index : FamilyIndex, index.Unrepeated → (entries.foldl (fun index e =>
      let known := (index.find? e.pfx).getD []
      if e ∈ known then index else index.insert e.pfx (known ++ [e])) index).Unrepeated := by
    induction entries with
    | nil => exact fun _ h => h
    | cons e rest ih => exact fun index h => ih _ (h.add e)
  exact hfold _ unrepeated_empty

/-- What the index lists is what was announced. -/
theorem IndexOf.mem_listed (h : IndexOf index f entries) :
    e ∈ index.values.flatten ↔ e ∈ entries := by
  simp only [List.mem_flatten, OrdMap.values, List.mem_map, Prod.exists]
  constructor
  · rintro ⟨l, ⟨p, l', hl, rfl⟩, he⟩
    exact (h.mem_entries_iff.mp ⟨l', hl, he⟩).1
  · intro he
    obtain ⟨l, hl, hel⟩ := h.mem_entries_iff.mpr ⟨he, rfl⟩
    exact ⟨l, ⟨e.pfx, l, hl, rfl⟩, hel⟩

/-- **Nothing is listed twice**, for one prefix or for two. -/
theorem IndexOf.nodup_listed (h : IndexOf index f entries) (hu : index.Unrepeated) :
    index.values.flatten.Nodup := by
  rw [List.nodup_flatten]
  constructor
  · intro l hl
    obtain ⟨p, hfind⟩ := OrdMap.mem_values_iff.mp hl
    exact hu p l hfind
  · rw [OrdMap.values, List.pairwise_map]
    refine index.ascending.imp_of_mem fun {a b} ha hb hlt e hea heb => ?_
    -- the announcement tells its prefix, and the prefixes differ
    have hpa := (h.mem_entries_iff.mp ⟨a.2, ha, hea⟩).2
    have hpb := (h.mem_entries_iff.mp ⟨b.2, hb, heb⟩).2
    have hself : compare e.pfx e.pfx = .eq := Std.ReflCmp.compare_self
    rw [← hpa, ← hpb, hself] at hlt
    exact absurd hlt (by decide)

end FamilyIndex

namespace AnnouncementIndex

variable {index : AnnouncementIndex}

theorem family_build (index : AnnouncementIndex) (entries : List RisEntry) (f : Family) :
    (index.reset entries).family f = FamilyIndex.build (index.retainedFor entries f) := by
  cases f <;> rfl

/-- **The size of an index** is the number of different announcements retained. -/
theorem size_reset (index : AnnouncementIndex) (entries : List RisEntry) :
    (index.reset entries).size = (index.retained entries).dedup.length := by
  have hlisted : ∀ f e, e ∈ ((index.reset entries).family f).values.flatten ↔
      e ∈ index.retained entries ∧ e.pfx.family = f := fun f e =>
    (indexOf_reset index entries f).mem_listed.trans mem_retainedFor
  have hnodup : ∀ f, ((index.reset entries).family f).values.flatten.Nodup := fun f =>
    (indexOf_reset index entries f).nodup_listed
      (family_build index entries f ▸ FamilyIndex.unrepeated_build _)
  refine List.Perm.length_eq ((List.perm_ext_iff_of_nodup ?_ (List.nodup_dedup _)).mpr fun e => ?_)
  · rw [List.flatten_append, List.nodup_append]
    refine ⟨hnodup .ipv4, hnodup .ipv6, fun d hd d' hd' heq => ?_⟩
    have hfour := ((hlisted .ipv4 d).mp hd).2
    have hsix := ((hlisted .ipv6 d').mp hd').2
    rw [← heq, hfour] at hsix
    exact nomatch hsix
  · rw [List.flatten_append, List.mem_append, List.mem_dedup]
    refine (or_congr (hlisted .ipv4 e) (hlisted .ipv6 e)).trans ?_
    rw [← and_or_left, and_iff_left_iff_imp]
    intro _
    cases e.pfx.family with
    | ipv4 => exact Or.inl rfl
    | ipv6 => exact Or.inr rfl

/-! ### Two indexes -/

variable {index' : AnnouncementIndex}
  (same : ∀ e, e ∈ index.retained entries ↔ e ∈ index'.retained entries')

include same in
theorem mem_retainedFor_congr : e ∈ index.retainedFor entries f ↔
    e ∈ index'.retainedFor entries' f := by
  rw [mem_retainedFor, mem_retainedFor, same]

include same in
/-- **The same announcements give the same answers**, for any set of resources. -/
theorem matching_congr (s : ResourceSet) :
    (index.reset entries).matching s = (index'.reset entries').matching s := by
  have hindex : ∀ f, FamilyIndex.IndexOf ((index.reset entries).family f) f
      (index.retainedFor entries f) := indexOf_reset index entries
  have hindex' : ∀ f, FamilyIndex.IndexOf ((index'.reset entries').family f) f
      (index'.retainedFor entries' f) := indexOf_reset index' entries'
  rw [matching, matching, MostSpecific.mk.injEq]
  constructor
  · refine OrdSet.ext_toList fun e => ?_
    rw [OrdSet.mem_toList_ofMembers, OrdSet.mem_toList_ofMembers, mem_both, mem_both]
    simp only [List.mem_flatMap]
    refine exists_congr fun f => exists_congr fun p => and_congr_right fun _ => ?_
    exact (hindex f).mem_containedIn_congr (hindex' f) fun d => mem_retainedFor_congr same
  · refine OrdSet.ext_toList fun e => ?_
    rw [OrdSet.mem_toList_ofMembers, OrdSet.mem_toList_ofMembers, mem_both, mem_both]
    simp only [List.mem_flatMap]
    refine exists_congr fun f => exists_congr fun p => and_congr_right fun hp => ?_
    exact (hindex f).mem_aroundGaps_congr (hindex' f) (fun d => mem_retainedFor_congr same)
      (ResourceSet.family_of_mem_prefixes hp)

/-! ### Loading again and again -/

/-- The index after data was loaded, one list after the other. -/
def loaded (filter : BgpFilter) (loads : List (List RisEntry)) : AnnouncementIndex :=
  loads.foldl reset (empty filter)

/-- **Only the last data matters.** -/
theorem loaded_concat (filter : BgpFilter) (earlier : List (List RisEntry))
    (last : List RisEntry) : loaded filter (earlier ++ [last]) = (empty filter).reset last := by
  have hfilter : ∀ index : AnnouncementIndex,
      (earlier.foldl reset index).filter = index.filter := by
    induction earlier with
    | nil => exact fun _ => rfl
    | cons load rest ih => exact fun index => ih (index.reset load)
  rw [loaded, List.foldl_append, List.foldl_cons, List.foldl_nil, reset, hfilter, reset]

/-- **The retained announcements determine the index.** Whatever was loaded before, and in whatever
order and however often the announcements come in the last data: two indexes that retain the same
ones have the same size, are both empty or both not, and give the same answers for every set of
resources. The size is the number of different announcements retained. -/
theorem loaded_alike (filter : BgpFilter) (earlier earlier' : List (List RisEntry))
    {last last' : List RisEntry}
    (same : ∀ e, e ∈ last.filter filter.retains ↔ e ∈ last'.filter filter.retains) :
    (loaded filter (earlier ++ [last])).size = (loaded filter (earlier' ++ [last'])).size ∧
    (loaded filter (earlier ++ [last])).isEmpty = (loaded filter (earlier' ++ [last'])).isEmpty ∧
    (∀ s, (loaded filter (earlier ++ [last])).matching s =
      (loaded filter (earlier' ++ [last'])).matching s) ∧
    (∀ s, (loaded filter (earlier ++ [last])).overlapping s =
      (loaded filter (earlier' ++ [last'])).overlapping s) ∧
    (loaded filter (earlier ++ [last])).size = (last.filter filter.retains).dedup.length := by
  rw [loaded_concat, loaded_concat]
  have hretained : ∀ e, e ∈ (empty filter).retained last ↔ e ∈ (empty filter).retained last' :=
    same
  have hsize : ((empty filter).reset last).size = ((empty filter).reset last').size := by
    rw [size_reset, size_reset]
    refine (List.perm_ext_iff_of_nodup (List.nodup_dedup _) (List.nodup_dedup _)).mpr
      (fun e => ?_) |>.length_eq
    rw [List.mem_dedup, List.mem_dedup, hretained]
  have hmatching : ∀ s, ((empty filter).reset last).matching s =
      ((empty filter).reset last').matching s := fun s => matching_congr hretained s
  refine ⟨hsize, ?_, hmatching, fun s => ?_, size_reset (empty filter) last⟩
  · rw [isEmpty, isEmpty, hsize]
  · rw [overlapping, overlapping, hmatching]

/-- An announcement that too few peers see. -/
def faint : RisEntry := { wide with visibility := 4, visibility_le := Nat.le_of_ble_eq_true rfl }

/-- One index was loaded before, and its last data is out of order and has one announcement twice
and one that is not retained. -/
theorem loaded_alike_repeated :
    (loaded .standard [[faint, wide], [narrow, faint, wide, narrow]]).size = 2 ∧
      (loaded .standard [[faint, wide], [narrow, faint, wide, narrow]]).matching (.ofPrefix asked) =
        (loaded .standard [[wide, narrow]]).matching (.ofPrefix asked) := by
  have hretained : [narrow, faint, wide, narrow].filter BgpFilter.standard.retains =
      [narrow, wide, narrow] := by decide
  have hretained' : [wide, narrow].filter BgpFilter.standard.retains = [wide, narrow] := by decide
  have same : ∀ e, e ∈ [narrow, faint, wide, narrow].filter BgpFilter.standard.retains ↔
      e ∈ [wide, narrow].filter BgpFilter.standard.retains := by
    intro e
    rw [hretained, hretained']
    simp [or_comm]
  obtain ⟨-, -, hmatching, -, hsize⟩ := loaded_alike .standard [[faint, wide]] [] same
  exact ⟨hsize.trans (by rw [hretained]; decide), hmatching (.ofPrefix asked)⟩

end AnnouncementIndex

end RpkiAuthority
