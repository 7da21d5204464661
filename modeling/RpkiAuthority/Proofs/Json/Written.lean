import RpkiAuthority.Json.Reader
import RpkiAuthority.Json.Writer
import RpkiAuthority.Proofs.Text.Numerals

/-!
# JSON that is written is read back

A value is read from its text again (`Json.parse_write`). Strings come back piece by piece, each
character as itself or as the unit it was escaped by; numbers end where a digit, a point or an
exponent does not follow, and what follows a value in a text is a comma, a closing bracket or
nothing (`Json.Closed`). The reader counts its steps, and a text is longer than the number of steps
that its value takes, so the bound is never met.

The one thing that the text does not keep is whether a string had escapes before: afterwards it has
them if it has characters that need them (`JsonValue.reread`).
-/

namespace RpkiAuthority

/-! ### Values -/

namespace JsonValue

/-- **Induction on values**: what holds of an array or an object follows from its parts. -/
theorem induction {P : JsonValue → Prop} (null : P .null) (bool : ∀ b, P (.bool b))
    (number : ∀ n, P (.number n)) (string : ∀ s, P (.string s))
    (array : ∀ elements, (∀ v ∈ elements, P v) → P (.array elements))
    (object : ∀ members : List (JsonString × JsonValue), (∀ m ∈ members, P m.2) →
      P (.object members))
    (v : JsonValue) : P v :=
  @JsonValue.rec P (fun elements => ∀ v ∈ elements, P v)
    (fun members => ∀ m ∈ members, P m.2) (fun m => P m.2) null bool number string array object
    (fun _ h => absurd h List.not_mem_nil)
    (fun _ _ hv hrest => List.forall_mem_cons.mpr ⟨hv, hrest⟩)
    (fun _ h => absurd h List.not_mem_nil)
    (fun _ _ hm hrest => List.forall_mem_cons.mpr ⟨hm, hrest⟩) (fun _ _ h => h) v

@[simp] theorem reread_array (elements : List JsonValue) :
    (array elements).reread = .array (elements.map reread) := by
  have hall : ∀ l, reread.all l = l.map reread := by
    intro l
    induction l with
    | nil => rfl
    | cons v rest ih => rw [reread.all, ih, List.map_cons]
  rw [reread, hall]

@[simp] theorem reread_object (members : List (JsonString × JsonValue)) :
    (object members).reread = .object (members.map fun m => (m.1.reread, m.2.reread)) := by
  have hall : ∀ l, reread.allMembers l = l.map fun m => (m.1.reread, m.2.reread) := by
    intro l
    induction l with
    | nil => rfl
    | cons m rest ih => rw [reread.allMembers, ih, List.map_cons]
  rw [reread, hall]

end JsonValue

namespace Json

open Text

variable {c e : Char} {l after : List Char}

/-! ### Strings -/

/-- The piece that is read for a character. -/
def pieceOf (c : Char) : Piece :=
  if isEscaped c && (escapeLetter? c).isNone then .unit c.toNat else .char c

theorem escapeLetter?_spec (h : escapeLetter? c = some e) : e ≠ 'u' ∧ shortEscape? e = some c := by
  revert h
  fun_cases escapeLetter? c <;> rintro ⟨⟩ <;> exact ⟨by decide, rfl⟩

/-- Only control characters are escaped by their number. -/
theorem toNat_lt_of_escapeLetter?_eq_none (hesc : isEscaped c = true) (h : escapeLetter? c = none) :
    c.toNat < 32 := by
  simp only [isEscaped, Bool.or_eq_true, beq_iff_eq, decide_eq_true_eq] at hesc
  rcases hesc with (rfl | rfl) | hlt
  · exact nomatch h
  · exact nomatch h
  · exact hlt

theorem hexPadded_spec : ∀ n < 32,
    (hexPadded 4 n).toList = ['0', '0', (n / 16).digitChar, (n % 16).digitChar] ∧
      hexUnit? '0' '0' (n / 16).digitChar (n % 16).digitChar = some n := by
  decide

/-- A character without an escape stands for itself. -/
theorem pieces_cons (h : isEscaped c = false) (l : List Char) :
    pieces (c :: l) =
      (pieces l).map fun (ps, escaped, after) => (.char c :: ps, escaped, after) := by
  simp only [isEscaped, Bool.or_eq_false_iff, beq_eq_false_iff_ne, decide_eq_false_iff_not] at h
  obtain ⟨⟨hquote, hescape⟩, hcontrol⟩ := h
  rw [pieces, if_neg (by simp [hescape, hcontrol])]
  · cases pieces l <;> rfl
  · exact hquote
  · rintro _ _ _ _ _ rfl
    exact absurd rfl hescape
  · rintro _ _ rfl
    exact absurd rfl hescape

/-- A letter behind a backslash names a character. -/
theorem pieces_letter (hu : e ≠ 'u') (hshort : shortEscape? e = some c) (l : List Char) :
    pieces ('\\' :: e :: l) =
      (pieces l).map fun (ps, _, after) => (.char c :: ps, true, after) := by
  rw [pieces, hshort]
  · cases pieces l <;> rfl
  · rintro _ _ _ _ _ rfl
    exact absurd rfl hu

/-- **A character is read** as its piece, and the text goes on behind it. -/
theorem pieces_charText (c : Char) (l : List Char) :
    pieces (charText c ++ l) =
      (pieces l).map fun (ps, escaped, after) =>
        (pieceOf c :: ps, isEscaped c || escaped, after) := by
  cases hesc : isEscaped c with
  | false =>
    have htext : charText c ++ l = c :: l := by simp [charText, hesc]
    have hpiece : pieceOf c = .char c := by simp [pieceOf, hesc]
    rw [htext, pieces_cons hesc, hpiece]
    rfl
  | true =>
    cases hletter : escapeLetter? c with
    | some e =>
      obtain ⟨hu, hshort⟩ := escapeLetter?_spec hletter
      have htext : charText c ++ l = '\\' :: e :: l := by simp [charText, hesc, hletter]
      have hpiece : pieceOf c = .char c := by simp [pieceOf, hletter]
      rw [htext, pieces_letter hu hshort, hpiece]
      rfl
    | none =>
      have hlt := toNat_lt_of_escapeLetter?_eq_none hesc hletter
      obtain ⟨hhex, hunit⟩ := hexPadded_spec c.toNat hlt
      have hpiece : pieceOf c = .unit c.toNat := by simp [pieceOf, hesc, hletter]
      simp only [charText, hesc, hletter, hhex, if_true, List.cons_append, List.nil_append, pieces,
        hunit, hpiece]
      cases pieces l <;> rfl

theorem pieces_flatMap_charText (l after : List Char) :
    pieces (l.flatMap charText ++ '"' :: after) =
      some (l.map pieceOf, l.any isEscaped, after) := by
  induction l with
  | nil => rfl
  | cons c l ih => rw [List.flatMap_cons, List.append_assoc, pieces_charText, ih]; rfl

/-- A unit that is no half of a surrogate pair denotes a character. -/
theorem denoted_unit {n : Nat} (h : n < 0xD800) (ps : List Piece) :
    denoted (.unit n :: ps) = (denoted ps).map (Char.ofNat n :: ·) := by
  have hlow : ¬(0xD800 ≤ n ∧ n < 0xDC00) := by omega
  have hhigh : ¬(0xDC00 ≤ n ∧ n < 0xE000) := by omega
  have hhalf : ¬(0xD800 ≤ n ∧ n < 0xE000) := by omega
  cases ps with
  | nil => simp only [denoted, if_neg hhalf]
  | cons p ps =>
    cases p with
    | char c => simp only [denoted, if_neg hhalf]
    | unit m => rw [denoted, if_neg hlow, if_neg hhigh]

/-- **The pieces denote the characters** they were written for. -/
theorem denoted_map_pieceOf (l : List Char) : denoted (l.map pieceOf) = some l := by
  induction l with
  | nil => rfl
  | cons c l ih =>
    rw [List.map_cons, pieceOf]
    split
    · next h =>
      rw [Bool.and_eq_true, Option.isNone_iff_eq_none] at h
      have hlt := toNat_lt_of_escapeLetter?_eq_none h.1 h.2
      rw [denoted_unit (by omega), ih, Char.ofNat_toNat]
      rfl
    · rw [denoted, ih]
      rfl

theorem stringText_append (s : String) (l : List Char) :
    stringText s ++ l = '"' :: (s.toList.flatMap charText ++ '"' :: l) := by
  simp [stringText]

/-- **Strings are read back** after their opening quote. -/
theorem readString_written (s : JsonString) (after : List Char) :
    readString (s.written.toList.flatMap charText ++ '"' :: after) = some (s.reread, after) := by
  rw [readString, pieces_flatMap_charText]
  simp [denoted_map_pieceOf, JsonString.reread]

/-! ### Numbers -/

/-- What may follow a value in a text: a comma, a closing bracket or nothing. -/
def Closed (l : List Char) : Prop := ∀ c ∈ l.head?, c = ',' ∨ c = ']' ∨ c = '\x7d'

theorem closed_nil : Closed [] := fun _ h => nomatch h

theorem closed_cons (h : c = ',' ∨ c = ']' ∨ c = '\x7d') (l : List Char) : Closed (c :: l) :=
  fun _ hd => Option.some.inj hd ▸ h

/-- Nothing that may follow a value could be part of a number. -/
theorem Closed.spec (h : Closed l) :
    ∀ c ∈ l.head?, c.isDigit = false ∧ c ≠ '.' ∧ c ≠ 'e' ∧ c ≠ 'E' := by
  intro c hc
  rcases h c hc with rfl | rfl | rfl
  all_goals decide

/-- Digits end where no digit follows. -/
theorem spanDigits_append {digits : List Char} (h : ∀ c ∈ digits, c.isDigit = true)
    (hafter : ∀ c ∈ after.head?, c.isDigit = false) :
    spanDigits (digits ++ after) = (digits, after) := by
  rw [spanDigits, List.takeWhile_append_of_pos h, List.dropWhile_append_of_pos h]
  cases after with
  | nil => simp
  | cons c rest =>
    have hc : c.isDigit = false := hafter c rfl
    rw [List.takeWhile_cons_of_neg (by simp [hc]), List.dropWhile_cons_of_neg (by simp [hc]),
      List.append_nil]

theorem isDigit_of_mem_toDigits (n : Nat) : ∀ c ∈ Nat.toDigits 10 n, c.isDigit = true :=
  fun _ => Nat.isDigit_of_mem_toDigits (by decide) (Nat.le_refl 10)

/-- A number starts with a digit. -/
theorem exists_toDigits_eq (n : Nat) :
    ∃ d more, Nat.toDigits 10 n = d :: more ∧ d.isDigit = true := by
  obtain ⟨d, more, h⟩ := List.exists_cons_of_ne_nil (Nat.toDigits_ne_nil (b := 10) (n := n))
  exact ⟨d, more, h, isDigit_of_mem_toDigits n d (h ▸ List.mem_cons_self)⟩

/-- Numbers are written without leading zeros. -/
theorem readInteger_toDigits (n : Nat) (hafter : ∀ c ∈ after.head?, c.isDigit = false) :
    readInteger (Nat.toDigits 10 n ++ after) = some (Nat.toDigits 10 n, after) := by
  have hne : (Nat.toDigits 10 n).isEmpty = false := by
    rw [List.isEmpty_eq_false_iff]
    exact Nat.toDigits_ne_nil
  have hzero : ¬((Nat.toDigits 10 n).head? = some '0' ∧ (Nat.toDigits 10 n).length ≠ 1) := by
    rintro ⟨hhead, hlen⟩
    rcases Nat.eq_zero_or_pos n with rfl | hpos
    · exact hlen rfl
    · exact head?_toDigits_ne (by decide) n hpos hhead
  rw [readInteger, spanDigits_append (isDigit_of_mem_toDigits n) hafter]
  dsimp only
  rw [if_neg (by simpa [hne] using hzero)]

theorem digitsValue_toDigits (n : Nat) : digitsValue (Nat.toDigits 10 n) = n :=
  Nat.ofDigitChars_ten_toDigits

/-- The sign and the digits of an exponent are read back. -/
theorem readExponent_exponentText (k : Int) (hafter : Closed after) :
    readExponent ('e' :: (exponentText k ++ after)) = some (some k, after) := by
  have hspan : ∀ n, spanDigits (Nat.toDigits 10 n ++ after) = (Nat.toDigits 10 n, after) := fun n =>
    spanDigits_append (isDigit_of_mem_toDigits n) fun c hc => (hafter.spec c hc).1
  have hne : ∀ n, (Nat.toDigits 10 n).isEmpty = false := by
    intro n
    rw [List.isEmpty_eq_false_iff]
    exact Nat.toDigits_ne_nil
  cases k with
  | ofNat n =>
    obtain ⟨d, more, htext, hd⟩ := exists_toDigits_eq n
    have hsign : ∀ r, Nat.toDigits 10 n ++ after ≠ '-' :: r ∧
        Nat.toDigits 10 n ++ after ≠ '+' :: r := by
      intro r
      rw [htext]
      refine ⟨?_, ?_⟩
      all_goals
        rintro heq
        obtain rfl := (List.cons.inj heq).1
        exact absurd hd (by decide)
    rw [readExponent, if_pos (.inl rfl)]
    · simp [exponentText, hspan, hne, digitsValue_toDigits]
    · exact fun r => (hsign r).1
    · exact fun r => (hsign r).2
  | negSucc n =>
    rw [exponentText, List.cons_append, readExponent, if_pos (.inl rfl)]
    simp only [hspan, hne, digitsValue_toDigits]
    rfl

/-- **Numbers are read back.** -/
theorem readNumber_numberText (n : JsonNumber) (hafter : Closed after) :
    readNumber (numberText n ++ after) = some (n, after) := by
  have hsign : ∀ (n : Nat) (l r : List Char), Nat.toDigits 10 n ++ l ≠ '-' :: r := by
    intro n l r
    obtain ⟨d, more, htext, hd⟩ := exists_toDigits_eq n
    rw [htext]
    rintro heq
    obtain rfl := (List.cons.inj heq).1
    exact absurd hd (by decide)
  cases n with
  | natural n =>
    have hfraction : readFraction after = some ([], after) := by
      rw [readFraction]
      rintro l rfl
      exact absurd rfl (hafter.spec '.' rfl).2.1
    have hexponent : readExponent after = some (none, after) := by
      cases after with
      | nil => rfl
      | cons c rest =>
        obtain ⟨-, -, hlow, hhigh⟩ := hafter.spec c rfl
        rw [readExponent.eq_def]
        simp [hlow, hhigh]
    rw [numberText, readNumber]
    · simp [readInteger_toDigits n fun c hc => (hafter.spec c hc).1, hfraction, hexponent,
        digitsValue_toDigits]
    · exact hsign n after
  | other mantissa k =>
    have hdigits : ∀ c ∈ ('e' :: (exponentText k ++ after)).head?, c.isDigit = false := by
      rintro c hc
      obtain rfl := Option.some.inj hc
      decide
    rw [numberText, List.append_assoc, List.cons_append, readNumber]
    · simp [readInteger_toDigits mantissa hdigits, readFraction,
        readExponent_exponentText k hafter, digitsValue_toDigits]
    · exact hsign mantissa _

/-! ### Whole values -/

/-- The first characters of values: none of them is a blank or a closing bracket. -/
def IsStart (c : Char) : Prop := c.isDigit = true ∨ c ∈ "ntf\"[\x7b".toList

theorem IsStart.spec (h : IsStart c) :
    (c ≠ ' ' ∧ c ≠ '\t' ∧ c ≠ '\n' ∧ c ≠ '\r') ∧ c ≠ ']' ∧ c ≠ '\x7d' := by
  refine ⟨⟨?_, ?_, ?_, ?_⟩, ?_, ?_⟩
  all_goals
    rintro rfl
    exact absurd h (by simp [IsStart])

theorem exists_numberText_eq (n : JsonNumber) :
    ∃ d more, numberText n = d :: more ∧ d.isDigit = true := by
  cases n with
  | natural n => exact exists_toDigits_eq n
  | other mantissa k =>
    obtain ⟨d, more, htext, hd⟩ := exists_toDigits_eq mantissa
    exact ⟨d, more ++ 'e' :: exponentText k, by rw [numberText, htext, List.cons_append], hd⟩

/-- **A value starts** with one of these. -/
theorem exists_valueText_eq (v : JsonValue) : ∃ c rest, valueText v = c :: rest ∧ IsStart c := by
  cases v with
  | null => exact ⟨_, _, rfl, .inr (by decide)⟩
  | bool b => cases b <;> exact ⟨_, _, rfl, .inr (by decide)⟩
  | number n =>
    obtain ⟨d, more, htext, hd⟩ := exists_numberText_eq n
    exact ⟨d, more, htext, .inl hd⟩
  | string s => exact ⟨_, _, rfl, .inr (by decide)⟩
  | array elements => exact ⟨_, _, rfl, .inr (by decide)⟩
  | object members => exact ⟨_, _, rfl, .inr (by decide)⟩

/-- So does an array with elements behind its bracket. -/
theorem exists_elementsText_eq (v : JsonValue) (rest : List JsonValue) :
    ∃ c l, elementsText (v :: rest) = c :: l ∧ IsStart c := by
  obtain ⟨c, l, htext, hc⟩ := exists_valueText_eq v
  cases rest with
  | nil => exact ⟨c, l ++ [']'], by rw [elementsText, htext, List.cons_append], hc⟩
  | cons w rest =>
    refine ⟨c, l ++ ',' :: elementsText (w :: rest), ?_, hc⟩
    rw [elementsText, htext, List.cons_append]
    exact List.cons_ne_nil w rest

/-- An object with members has a string behind its brace. -/
theorem exists_membersText_eq (m : JsonString × JsonValue) (rest : List (JsonString × JsonValue)) :
    ∃ l, membersText (m :: rest) = '"' :: l := by
  obtain ⟨k, v⟩ := m
  cases rest with
  | nil => exact ⟨_, by rw [membersText, stringText_append]⟩
  | cons e rest =>
    rw [membersText, stringText_append]
    · exact ⟨_, rfl⟩
    · exact List.cons_ne_nil e rest

theorem skip_cons (h : IsStart c) (l : List Char) : skip (c :: l) = c :: l := by
  obtain ⟨⟨hspace, htab, hline, hreturn⟩, -⟩ := h.spec
  exact List.dropWhile_cons_of_neg (by simp [hspace, htab, hline, hreturn])

/-- Nothing but a number starts with a digit. -/
theorem readValue_of_isDigit (h : c.isDigit = true) (n : Nat) (l : List Char) :
    readValue (n + 1) (c :: l) =
      (readNumber (c :: l)).map fun (number, after) => (.number number, after) := by
  have hne : ∀ d, d.isDigit = false → c ≠ d := by
    rintro d hd rfl
    exact absurd h (by simp [hd])
  have hword : ∀ d word, d.isDigit = false → dropBeginning? (d :: word) (c :: l) = none := by
    intro d word hd
    rw [dropBeginning?, if_neg (hne d hd).symm]
  have hnull : dropBeginning? "null".toList (c :: l) = none := hword 'n' _ rfl
  have htrue : dropBeginning? "true".toList (c :: l) = none := hword 't' _ rfl
  have hfalse : dropBeginning? "false".toList (c :: l) = none := hword 'f' _ rfl
  rw [readValue, skip_cons (.inl h)]
  split
  · next heq => exact absurd (List.cons.inj heq).1 (hne '"' rfl)
  · next heq => exact absurd (List.cons.inj heq).1 (hne '[' rfl)
  · next heq => exact absurd (List.cons.inj heq).1 (hne '\x7b' rfl)
  · next heq =>
    obtain ⟨rfl, rfl⟩ := List.cons.inj heq
    rw [hnull, htrue, hfalse]
  · next heq => exact nomatch heq

/-- A value is read back whatever may follow it, in more steps than its text has characters. -/
def IsReadBack (v : JsonValue) : Prop :=
  ∀ {n : Nat} {after : List Char}, (valueText v).length ≤ n → Closed after →
    readValue (n + 1) (valueText v ++ after) = some (v.reread, after)

variable {elements : List JsonValue} {members : List (JsonString × JsonValue)} {n : Nat}

theorem readElements_elementsText (hne : elements ≠ []) (h : ∀ v ∈ elements, IsReadBack v)
    (hn : (elementsText elements).length ≤ n) :
    readElements (n + 1) (elementsText elements ++ after) =
      some (elements.map JsonValue.reread, after) := by
  induction elements generalizing n with
  | nil => exact absurd rfl hne
  | cons v elements ih =>
    obtain ⟨hv, helements⟩ := List.forall_mem_cons.mp h
    cases elements with
    | nil =>
      rw [elementsText, List.length_append, List.length_singleton] at hn
      obtain ⟨n, rfl⟩ : ∃ m, n = m + 1 := Nat.exists_eq_add_one.mpr (by omega)
      rw [elementsText, List.append_assoc, List.singleton_append, readElements,
        hv (by omega) (closed_cons (by decide) after)]
      rfl
    | cons w elements =>
      rw [elementsText, List.length_append, List.length_cons] at hn
      · obtain ⟨n, rfl⟩ : ∃ m, n = m + 1 := Nat.exists_eq_add_one.mpr (by omega)
        rw [elementsText, List.append_assoc, List.cons_append, readElements,
          hv (by omega) (closed_cons (by decide) _)]
        · have hcomma : skip (',' :: (elementsText (w :: elements) ++ after)) =
              ',' :: (elementsText (w :: elements) ++ after) := rfl
          simp only [Option.bind_eq_bind, Option.bind_some, hcomma]
          rw [ih (List.cons_ne_nil w elements) helements (by omega)]
          rfl
        · exact List.cons_ne_nil w elements
      · exact List.cons_ne_nil w elements

theorem readMembers_membersText (hne : members ≠ []) (h : ∀ m ∈ members, IsReadBack m.2)
    (hn : (membersText members).length ≤ n) :
    readMembers (n + 1) (membersText members ++ after) =
      some (members.map fun m => (m.1.reread, m.2.reread), after) := by
  have hquote : ∀ l, skip ('"' :: l) = '"' :: l := fun _ => rfl
  have hcolon : ∀ l, skip (':' :: l) = ':' :: l := fun _ => rfl
  have hcomma : ∀ l, skip (',' :: l) = ',' :: l := fun _ => rfl
  induction members generalizing n with
  | nil => exact absurd rfl hne
  | cons m members ih =>
    obtain ⟨k, v⟩ := m
    obtain ⟨hv, hmembers⟩ := List.forall_mem_cons.mp h
    replace hv : IsReadBack v := hv
    cases members with
    | nil =>
      simp only [membersText, List.length_append, List.length_cons, List.length_nil] at hn
      obtain ⟨n, rfl⟩ : ∃ m, n = m + 1 := Nat.exists_eq_add_one.mpr (by omega)
      have hread := hv (n := n) (by omega) (closed_cons (c := '\x7d') (by decide) after)
      rw [membersText, List.append_assoc, stringText_append, readMembers, hquote]
      simp only [readString_written, Option.bind_eq_bind, Option.bind_some, List.cons_append,
        hcolon, List.append_assoc, List.nil_append, hread]
      rfl
    | cons e members =>
      rw [membersText, List.length_append, List.length_cons, List.length_append,
        List.length_cons] at hn
      · obtain ⟨n, rfl⟩ : ∃ m, n = m + 1 := Nat.exists_eq_add_one.mpr (by omega)
        have hread := hv (n := n) (by omega)
          (closed_cons (c := ',') (by decide) (membersText (e :: members) ++ after))
        have hmore := ih (List.cons_ne_nil e members) hmembers (n := n) (by omega)
        rw [membersText, List.append_assoc, stringText_append, readMembers, hquote]
        · simp only [readString_written, Option.bind_eq_bind, Option.bind_some, List.cons_append,
            hcolon, List.append_assoc, hread, hcomma, hmore]
          rfl
        · exact List.cons_ne_nil e members
      · exact List.cons_ne_nil e members

/-- **Values are read back.** -/
theorem isReadBack (v : JsonValue) : IsReadBack v := by
  induction v using JsonValue.induction with
  | null => exact fun _ _ => rfl
  | bool b => cases b <;> exact fun _ _ => rfl
  | number k =>
    intro n after _ hafter
    obtain ⟨d, more, htext, hd⟩ := exists_numberText_eq k
    have hread := readNumber_numberText k hafter
    rw [htext, List.cons_append] at hread
    rw [valueText, htext, List.cons_append, readValue_of_isDigit hd, hread]
    rfl
  | string s =>
    intro n after _ _
    have hquote : ∀ l, skip ('"' :: l) = '"' :: l := fun _ => rfl
    rw [valueText, stringText_append, readValue, hquote]
    simp only [readString_written]
    rfl
  | array elements ih =>
    intro n after hn _
    have hbracket : ∀ l, skip ('[' :: l) = '[' :: l := fun _ => rfl
    rw [valueText, List.length_cons] at hn
    rw [valueText, List.cons_append, readValue, hbracket, JsonValue.reread_array]
    cases elements with
    | nil => rfl
    | cons v rest =>
      obtain ⟨n, rfl⟩ : ∃ m, n = m + 1 := Nat.exists_eq_add_one.mpr (by omega)
      have hread : readElements (n + 1) (elementsText (v :: rest) ++ after) = _ :=
        readElements_elementsText (List.cons_ne_nil v rest) ih (Nat.le_of_succ_le_succ hn)
      obtain ⟨c, l, htext, hc⟩ := exists_elementsText_eq v rest
      have hskip : skip (elementsText (v :: rest) ++ after) = c :: (l ++ after) := by
        rw [htext, List.cons_append, skip_cons hc]
      simp only [hskip]
      split
      · next heq => exact absurd (List.cons.inj heq).1 hc.spec.2.1
      · rw [hread]
        rfl
  | object members ih =>
    intro n after hn _
    have hbrace : ∀ l, skip ('\x7b' :: l) = '\x7b' :: l := fun _ => rfl
    rw [valueText, List.length_cons] at hn
    rw [valueText, List.cons_append, readValue, hbrace, JsonValue.reread_object]
    cases members with
    | nil => rfl
    | cons m rest =>
      obtain ⟨n, rfl⟩ : ∃ m, n = m + 1 := Nat.exists_eq_add_one.mpr (by omega)
      have hread : readMembers (n + 1) (membersText (m :: rest) ++ after) = _ :=
        readMembers_membersText (List.cons_ne_nil m rest) ih (Nat.le_of_succ_le_succ hn)
      obtain ⟨l, htext⟩ := exists_membersText_eq m rest
      have hskip : skip (membersText (m :: rest) ++ after) = '"' :: (l ++ after) := by
        rw [htext]
        rfl
      simp only [hskip, hread]
      rfl

/-- **A JSON text is read as the value that it was written for.** -/
theorem parse_write (v : JsonValue) : parse (write v) = some v.reread := by
  have hread := isReadBack v (Nat.le_refl _) closed_nil
  rw [List.append_nil] at hread
  simp only [parse, write, String.toList_ofList, hread, Option.bind_eq_bind, Option.bind_some]
  rfl

/-! ### Strings without escapes -/

/-- Letters and digits are not escaped. -/
theorem isEscaped_of_isAlphanum (h : c.isAlphanum = true) : isEscaped c = false := by
  have hrange := toNat_of_isAlphanum h
  have hquote : c ≠ '"' := by
    rintro rfl
    exact absurd h (by decide)
  have hescape : c ≠ '\\' := by
    rintro rfl
    exact absurd h (by decide)
  simp only [isEscaped, hquote, hescape, beq_eq_false_iff_ne.mpr, ne_eq, not_false_eq_true,
    Bool.false_or, decide_eq_false_iff_not]
  omega

variable {s : String}

theorem reread_of (h : ∀ c ∈ s.toList, isEscaped c = false) :
    (JsonString.of s).reread = .of s := by
  have hany : s.toList.any isEscaped = false := List.any_eq_false.mpr fun c hc => by simp [h c hc]
  exact congrArg (JsonString.mk (some s)) hany

/-- **A text without characters to escape** is written between quotes. -/
theorem write_text (h : ∀ c ∈ s.toList, isEscaped c = false) :
    write (.text s) = "\"" ++ s ++ "\"" := by
  have hchars : s.toList.flatMap charText = s.toList := by
    have hchar : ∀ c ∈ s.toList, charText c = [c] := fun c hc => by simp [charText, h c hc]
    rw [List.flatMap_def, List.map_congr_left hchar, ← List.flatMap_def, List.flatMap_singleton']
  have htext : valueText (.text s) = ("\"" ++ s ++ "\"").toList := by
    rw [String.toList_append, String.toList_append]
    exact congrArg ('"' :: · ++ ['"']) hchars
  rw [write, htext, String.ofList_toList]

theorem parse_quoted (h : ∀ c ∈ s.toList, isEscaped c = false) :
    parse ("\"" ++ s ++ "\"") = some (.text s) := by
  rw [← write_text h, parse_write]
  exact congrArg (fun r => some (JsonValue.string r)) (reread_of h)

end Json

end RpkiAuthority
