import RpkiAuthority.Config.Reader

/-!
# The integers of a document have 64 bits

An integer of a TOML document has 64 bits, one of which is the sign. The reader checks this where it
reads a number (`TomlText.integer?`), and nothing that happens to a value afterwards makes up
another number: tables are only put together from what was read. So every integer anywhere in a
document that was read is in that range (`TomlText.read_signed`), and so are those of a section
(`Toml.Signed.section?`). A setting of 64 bits without a sign is therefore never as large as its
type allows (`Toml.Signed.nat?_lt`).
-/

namespace RpkiAuthority

/-- Every integer in a value has 64 bits, one of which is the sign. -/
inductive Toml.Signed : Toml → Prop
  | string (s : String) : Signed (.string s)
  | integer {n : Int} (least : -0x8000000000000000 ≤ n) (most : n < 0x8000000000000000) :
      Signed (.integer n)
  | bool (b : Bool) : Signed (.bool b)
  | float : Signed .float
  | moment : Signed .moment
  | array {elements : List Toml} (each : ∀ v ∈ elements, Signed v) : Signed (.array elements)
  | table {origin : TomlOrigin} {members : TomlMembers} (each : ∀ m ∈ members, Signed m.2) :
      Signed (.table origin members)
  | tables {elements : List TomlMembers} (each : ∀ members ∈ elements, ∀ m ∈ members, Signed m.2) :
      Signed (.tables elements)

namespace TomlMembers

/-! ### Tables that are put together -/

/-- Every integer in a table has 64 bits, one of which is the sign. -/
def Signed (ms : TomlMembers) : Prop := ∀ m ∈ ms, m.2.Signed

variable {ms out : TomlMembers} {k : String} {v : Toml} {path : List String}

@[simp] theorem signed_nil : Signed [] := by simp [Signed]

@[simp] theorem signed_append {xs ys : TomlMembers} :
    Signed (xs ++ ys) ↔ Signed xs ∧ Signed ys := by
  simp only [Signed, List.mem_append]
  grind

@[simp] theorem signed_singleton : Signed [(k, v)] ↔ v.Signed := by simp [Signed]

/-- A member of such a table is such a value. -/
theorem Signed.find? (h : ms.Signed) (hfind : ms.find? k = some v) : v.Signed := by
  simp only [TomlMembers.find?, Option.map_eq_some_iff] at hfind
  obtain ⟨m, hm, rfl⟩ := hfind
  exact h m (List.mem_of_find?_eq_some hm)

theorem Signed.replace (h : ms.Signed) (hv : v.Signed) : (ms.replace k v).Signed := by
  intro m hm
  simp only [TomlMembers.replace, List.mem_map] at hm
  obtain ⟨m₀, hm₀, rfl⟩ := hm
  split
  · exact hv
  · exact h m₀ hm₀

/-- The members of a table within such a table. -/
theorem Signed.inner {origin : TomlOrigin} {inner : TomlMembers} (h : ms.Signed)
    (hfind : ms.find? k = some (.table origin inner)) : inner.Signed := by
  cases h.find? hfind with
  | table each => exact each

/-- The members of the tables of one header within such a table. -/
theorem Signed.each {elements : List TomlMembers} (h : ms.Signed)
    (hfind : ms.find? k = some (.tables elements)) : ∀ e ∈ elements, e.Signed := by
  cases h.find? hfind with
  | tables each => exact each

/-- The last of the tables of one header, or an empty one. -/
theorem signed_getLast?_getD {elements : List TomlMembers} (h : ∀ e ∈ elements, e.Signed) :
    (elements.getLast?.getD []).Signed := by
  cases hlast : elements.getLast? with
  | none => exact signed_nil
  | some e => exact h e (List.mem_of_getLast? hlast)

/-- **A change deep in a table** keeps its integers in range if it does so in the table that the
path leads to. -/
theorem Signed.within {dotted made : Bool} {change : Bool → TomlMembers → Option TomlMembers}
    (hchange : ∀ made ms out, Signed ms → change made ms = some out → Signed out) (h : ms.Signed)
    (hout : within dotted change path made ms = some out) : out.Signed := by
  induction path generalizing made ms out with
  | nil => exact hchange made ms out h hout
  | cons k path ih =>
    rw [TomlMembers.within] at hout
    split at hout
    · simp only [bind, Option.bind_eq_some_iff, pure, Option.some.injEq] at hout
      obtain ⟨inner, hinner, rfl⟩ := hout
      exact signed_append.mpr ⟨h, signed_singleton.mpr (.table (ih signed_nil hinner))⟩
    · next origin inner hfind =>
      split at hout
      · simp at hout
      · simp only [bind, Option.bind_eq_some_iff, pure, Option.some.injEq] at hout
        obtain ⟨inner', hinner', rfl⟩ := hout
        exact h.replace (.table (ih (h.inner hfind) hinner'))
    · next elements hfind =>
      simp only [bind, Option.bind_eq_some_iff, pure, Option.some.injEq] at hout
      obtain ⟨last, hlast, rfl⟩ := hout
      have heach := h.each hfind
      refine h.replace (.tables fun e he => ?_)
      rcases List.mem_append.mp he with he | he
      · exact heach e (List.dropLast_subset elements he)
      · obtain rfl := List.mem_singleton.mp he
        exact ih (signed_getLast?_getD heach) hlast
    · simp at hout

theorem Signed.addMember (h : ms.Signed) (hv : v.Signed)
    (hout : ms.addMember path k v = some out) : out.Signed := by
  refine h.within (fun made ms out hms hout => ?_) hout
  split at hout
  · simp at hout
  · split at hout
    · simp at hout
    · obtain rfl := Option.some.inj hout
      exact signed_append.mpr ⟨hms, signed_singleton.mpr hv⟩

theorem Signed.startTable (h : ms.Signed) (hout : ms.startTable path k = some out) :
    out.Signed := by
  refine h.within (fun _ ms out hms hout => ?_) hout
  split at hout
  · obtain rfl := Option.some.inj hout
    exact signed_append.mpr ⟨hms, signed_singleton.mpr (.table signed_nil)⟩
  · next hfind =>
    obtain rfl := Option.some.inj hout
    exact hms.replace (.table (hms.inner hfind))
  · simp at hout

theorem Signed.startElement (h : ms.Signed) (hout : ms.startElement path k = some out) :
    out.Signed := by
  refine h.within (fun _ ms out hms hout => ?_) hout
  split at hout
  · obtain rfl := Option.some.inj hout
    exact signed_append.mpr ⟨hms, signed_singleton.mpr (.tables (by simp))⟩
  · next hfind =>
    obtain rfl := Option.some.inj hout
    refine hms.replace (.tables fun e he => ?_)
    rcases List.mem_append.mp he with he | he
    · exact hms.each hfind e he
    · obtain rfl := List.mem_singleton.mp he
      exact signed_nil
  · simp at hout

end TomlMembers

/-! ### Settings of a section -/

namespace Toml.Signed

variable {v : Toml}

/-- The members of a section that is such a value. -/
theorem section? {names : List String} {ms : TomlMembers} (h : v.Signed)
    (hsection : v.section? names = some ms) : ms.Signed := by
  cases h with
  | array each =>
    obtain rfl := Option.some.inj hsection
    exact fun m hm => each m.2 (List.of_mem_zip hm).2
  | table each =>
    obtain rfl := Option.some.inj hsection
    exact each
  | tables each =>
    obtain rfl := Option.some.inj hsection
    intro m hm
    obtain ⟨members, hmembers, hm⟩ := List.mem_map.mp (List.of_mem_zip hm).2
    exact hm ▸ .table (each members hmembers)
  | moment =>
    obtain rfl := Option.some.inj hsection
    exact TomlMembers.signed_nil
  | string | integer | bool | float => simp [Toml.section?] at hsection

/-- **A natural number in a document has 63 bits**, whatever is asked for. -/
theorem nat?_lt {max n : Nat} (h : v.Signed) (hn : v.nat? max = some n) :
    n < 0x8000000000000000 := by
  cases h with
  | integer least most =>
    simp only [Toml.nat?, Option.ite_none_right_eq_some, Option.some.injEq] at hn
    omega
  | string | bool | float | moment | array | table | tables => simp [Toml.nat?] at hn

end Toml.Signed

namespace TomlText

variable {l rest : List Char} {v : Toml}

/-! ### Numbers that are read -/

theorem integer?_signed {n : Int} (h : integer? n = some v) : v.Signed := by
  simp only [integer?, Option.ite_none_right_eq_some, Option.some.injEq] at h
  obtain ⟨⟨hleast, hmost⟩, rfl⟩ := h
  exact .integer hleast hmost

theorem readBased_signed {base : Nat} (h : readBased base l = some (v, rest)) : v.Signed := by
  simp only [readBased, bind, Option.bind_eq_some_iff, Prod.exists, pure, Option.some.injEq,
    Prod.mk.injEq] at h
  obtain ⟨_, _, _, v, hv, rfl, _⟩ := h
  exact integer?_signed hv

theorem readDecimal_signed {negative : Bool} (h : readDecimal negative l = some (v, rest)) :
    v.Signed := by
  simp only [readDecimal, bind, Option.bind_eq_some_iff, Prod.exists, pure] at h
  obtain ⟨_, _, _, _, _, _, _, _, _, h⟩ := h
  split at h
  · simp only [Option.bind_eq_some_iff, Option.some.injEq, Prod.mk.injEq] at h
    obtain ⟨v, hv, rfl, _⟩ := h
    exact integer?_signed hv
  · simp only [Option.ite_none_right_eq_some, Option.some.injEq, Prod.mk.injEq] at h
    obtain ⟨_, rfl, _⟩ := h
    exact .float

theorem readSigned_signed {negative : Bool} (h : readSigned negative l = some (v, rest)) :
    v.Signed := by
  unfold readSigned at h
  split at h
  · cases h
    exact .float
  · cases h
    exact .float
  · exact readDecimal_signed h

theorem readNumber_signed (h : readNumber l = some (v, rest)) : v.Signed := by
  unfold readNumber at h
  split at h
  · exact readSigned_signed h
  · exact readSigned_signed h
  · exact readBased_signed h
  · exact readBased_signed h
  · exact readBased_signed h
  · exact readSigned_signed h

/-- Dates and times are not valued. -/
theorem readMoment_eq_moment (h : readMoment l = some (v, rest)) : v = .moment := by
  rw [readMoment] at h
  split at h
  · simp only [bind, Option.bind_eq_some_iff, Prod.exists] at h
    obtain ⟨_, _, _, h⟩ := h
    split at h
    · split at h
      · simp only [Option.bind_eq_some_iff, Prod.exists, pure, Option.some.injEq,
          Prod.mk.injEq] at h
        obtain ⟨_, _, _, _, _, _, h, _⟩ := h
        exact h.symm
      · cases h
        rfl
    · cases h
      rfl
  · simp only [bind, Option.bind_eq_some_iff, Prod.exists, pure, Option.some.injEq,
      Prod.mk.injEq] at h
    obtain ⟨_, _, _, h, _⟩ := h
    exact h.symm

theorem readNumeric_signed (h : readNumeric l = some (v, rest)) : v.Signed := by
  rw [readNumeric] at h
  split at h
  · exact readMoment_eq_moment h ▸ .moment
  · exact readNumber_signed h

/-! ### Values that are read -/

/-- The elements of an array, given that its values are read so. -/
theorem readElements_signed {steps depth : Nat} {vs : List Toml}
    (hvalue : ∀ depth l v rest, readValue steps depth l = some (v, rest) → v.Signed)
    (helements : ∀ depth l vs rest, readElements steps depth l = some (vs, rest) →
      ∀ v ∈ vs, v.Signed)
    (h : readElements (steps + 1) depth l = some (vs, rest)) : ∀ v ∈ vs, v.Signed := by
  rw [readElements] at h
  split at h
  · cases h
    simp
  · simp only [bind, Option.bind_eq_some_iff, Prod.exists] at h
    obtain ⟨v, l, hv, h⟩ := h
    have hv := hvalue _ _ _ _ hv
    split at h
    · simp only [Option.bind_eq_some_iff, Prod.exists, pure, Option.some.injEq,
        Prod.mk.injEq] at h
      obtain ⟨vs, _, hvs, rfl, _⟩ := h
      exact List.forall_mem_cons.mpr ⟨hv, helements _ _ _ _ hvs⟩
    · cases h
      simpa using hv
    · simp at h

/-- The members of an inline table, given that its values are read so. -/
theorem readPairs_signed {steps depth : Nat} {ms out : TomlMembers}
    (hvalue : ∀ depth l v rest, readValue steps depth l = some (v, rest) → v.Signed)
    (hpairs : ∀ depth ms l out rest, ms.Signed → readPairs steps depth ms l = some (out, rest) →
      out.Signed)
    (hms : ms.Signed) (h : readPairs (steps + 1) depth ms l = some (out, rest)) : out.Signed := by
  simp only [readPairs, bind, Option.bind_eq_some_iff, Prod.exists] at h
  obtain ⟨_, _, _, _, _, _, v, _, hv, ms', hms', h⟩ := h
  have hms' := hms.addMember (hvalue _ _ _ _ hv) hms'
  split at h
  · exact hpairs _ _ _ _ _ hms' h
  · cases h
    exact hms'
  · simp at h

/-- The readers of values, elements and members call each other with one step less, so their ranges
are shown together. -/
theorem readers_signed (steps : Nat) :
    (∀ depth l v rest, readValue steps depth l = some (v, rest) → v.Signed) ∧
    (∀ depth l vs rest, readElements steps depth l = some (vs, rest) → ∀ v ∈ vs, v.Signed) ∧
    (∀ depth ms l out rest, ms.Signed → readPairs steps depth ms l = some (out, rest) →
      out.Signed) := by
  induction steps with
  | zero => simp [readValue, readElements, readPairs]
  | succ steps ih =>
    obtain ⟨hvalue, helements, hpairs⟩ := ih
    refine ⟨fun depth l v rest h => ?_,
      fun _ _ _ _ h => readElements_signed hvalue helements h,
      fun _ _ _ _ _ hms h => readPairs_signed hvalue hpairs hms h⟩
    unfold readValue at h
    split at h
    · simp only [Option.map_eq_some_iff, Prod.exists, Prod.mk.injEq] at h
      obtain ⟨_, _, _, rfl, _⟩ := h
      exact .string _
    · simp only [Option.map_eq_some_iff, Prod.exists, Prod.mk.injEq] at h
      obtain ⟨_, _, _, rfl, _⟩ := h
      exact .string _
    · split at h
      · simp at h
      · simp only [Option.map_eq_some_iff, Prod.exists, Prod.mk.injEq] at h
        obtain ⟨vs, _, hvs, rfl, _⟩ := h
        exact .array (helements _ _ _ _ hvs)
    · split at h
      · simp at h
      · split at h
        · cases h
          exact .table TomlMembers.signed_nil
        · simp only [Option.map_eq_some_iff, Prod.exists, Prod.mk.injEq] at h
          obtain ⟨ms, _, hms, rfl, _⟩ := h
          exact .table (hpairs _ _ _ _ _ TomlMembers.signed_nil hms)
    · cases h
      exact .bool true
    · cases h
      exact .bool false
    · exact readNumeric_signed h

/-- The integers of the value in a line. -/
theorem readLine_signed {path : List String} {k : String}
    (h : readLine l = some (.member path k v, rest)) : v.Signed := by
  unfold readLine at h
  split at h
  -- blank lines and comments
  · simp at h
  · simp at h
  · simp at h
  · simp at h
  -- headers
  · simp only [bind, Option.bind_eq_some_iff, Prod.exists] at h
    obtain ⟨_, _, _, _, h⟩ := h
    split at h <;> simp at h
  · simp [bind, Option.bind_eq_some_iff] at h
  -- members
  · simp only [bind, Option.bind_eq_some_iff, Prod.exists, pure, Option.some.injEq,
      Prod.mk.injEq, Line.member.injEq] at h
    obtain ⟨_, _, _, _, _, _, v, _, hv, ⟨_, _, rfl⟩, _⟩ := h
    exact (readers_signed _).1 _ _ _ _ hv

/-! ### Documents that are read -/

variable {here there : List String} {ms out : TomlMembers}

/-- **A line keeps the integers of a document in range.** -/
theorem addLine_signed {line : Line} (hline : readLine l = some (line, rest)) (hms : ms.Signed)
    (hout : addLine here ms line = some (there, out)) : out.Signed := by
  cases line with
  | blank =>
    cases hout
    exact hms
  | header path k =>
    simp only [addLine, bind, Option.bind_eq_some_iff, pure, Option.some.injEq,
      Prod.mk.injEq] at hout
    obtain ⟨out, hstart, _, rfl⟩ := hout
    exact hms.startTable hstart
  | element path k =>
    simp only [addLine, bind, Option.bind_eq_some_iff, pure, Option.some.injEq,
      Prod.mk.injEq] at hout
    obtain ⟨out, hstart, _, rfl⟩ := hout
    exact hms.startElement hstart
  | member path k v =>
    simp only [addLine, bind, Option.bind_eq_some_iff, pure, Option.some.injEq,
      Prod.mk.injEq] at hout
    obtain ⟨out, hadded, _, rfl⟩ := hout
    exact hms.within (fun _ _ _ hms hout => hms.addMember (readLine_signed hline) hout) hadded

/-- So do all lines. -/
theorem readLines_signed {steps : Nat} (hms : ms.Signed)
    (hout : readLines steps here ms l = some out) : out.Signed := by
  induction steps generalizing here ms l with
  | zero =>
    simp only [readLines, Option.ite_none_right_eq_some, Option.some.injEq] at hout
    exact hout.2 ▸ hms
  | succ steps ih =>
    rw [readLines] at hout
    split at hout
    · cases hout
      exact hms
    · simp only [bind, Option.bind_eq_some_iff, Prod.exists] at hout
      obtain ⟨line, l, hline, there, ms', hadded, _, _, hout⟩ := hout
      exact ih (addLine_signed hline hms hadded) hout

/-- **Every integer of a document has 64 bits**, one of which is the sign. -/
theorem read_signed {s : String} (h : TomlText.read s = some out) : out.Signed :=
  readLines_signed TomlMembers.signed_nil h

end TomlText

end RpkiAuthority
