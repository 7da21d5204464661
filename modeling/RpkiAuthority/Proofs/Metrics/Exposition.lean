import RpkiAuthority.Metrics.Text
import RpkiAuthority.Proofs.Text.Pieces

/-!
# Reading metrics

The reader of the Prometheus text format. A line is a sample: the name of a metric, labels in
braces, a value, and perhaps a time. Blanks between these do not matter, nor do empty lines and
comments. The values of labels stand between quotes. In there a backslash, a quote and a line feed
are written with a backslash before them.

Text between quotes is read up to the first quote that has no backslash before it. If it was escaped
that is its end, and the text itself is read (`Exposition.readQuoted_escape`). If it was not, the
same text is read only if there was nothing to escape (`Exposition.isPlain_of_readQuoted`).
-/

namespace RpkiAuthority.Exposition

/-- A sample as it is read. Numbers are kept as they are written; the time may be missing. -/
structure Entry where
  name : String
  labels : List (String × String)
  value : String
  time : String
  deriving DecidableEq, Repr

/-- The characters that may stand between the parts of a line. -/
def isGap (c : Char) : Bool := c == ' ' || c == '\t'

/-- Drops blanks within a line. -/
def skip (l : List Char) : List Char := l.dropWhile isGap

/-- Drops one given character. -/
def expect (c : Char) : List Char → Option (List Char)
  | [] => none
  | d :: rest => if d = c then some rest else none

/-! ### Names -/

/-- The characters of the names of labels. -/
def isLabelChar (c : Char) : Bool := c.isAlphanum || c == '_'

/-- The characters of the names of metrics. -/
def isMetricChar (c : Char) : Bool := isLabelChar c || c == ':'

/-- A name has characters of its kind only, and does not start with a digit. -/
def isName (p : Char → Bool) (name : List Char) : Bool :=
  name.all p && name.head?.any fun c => !c.isDigit

/-- Reads a name. -/
def readName (p : Char → Bool) (l : List Char) : Option (String × List Char) :=
  if isName p (l.takeWhile p) then some (String.ofList (l.takeWhile p), l.dropWhile p) else none

/-! ### Labels -/

/-- The character that is written as another one with a backslash before it. -/
def escapedAs? : Char → Option Char
  | '\\' => some '\\'
  | '"' => some '"'
  | 'n' => some '\n'
  | _ => none

/-- Reads text after its opening quote. -/
def readQuoted : List Char → Option (List Char × List Char)
  | [] => none
  | c :: rest =>
    if c = '"' then some ([], rest)
    else if c = '\n' then none
    else if c = '\\' then
      match rest with
      | [] => none
      | e :: rest =>
        (escapedAs? e).bind fun d => (readQuoted rest).map fun (text, rest) => (d :: text, rest)
    else (readQuoted rest).map fun (text, rest) => (c :: text, rest)

/-- Reads a label. -/
def readLabel (l : List Char) : Option ((String × String) × List Char) := do
  let (name, l) ← readName isLabelChar l
  let l ← expect '=' (skip l)
  let l ← expect '"' (skip l)
  let (value, l) ← readQuoted l
  return ((name, String.ofList value), skip l)

variable {l v rest : List Char} {p : Char → Bool}

theorem length_skip_le (l : List Char) : (skip l).length ≤ l.length :=
  (List.dropWhile_sublist _).length_le

theorem length_expect {c : Char} (h : expect c l = some rest) : rest.length < l.length := by
  cases l with
  | nil => exact nomatch h
  | cons d l =>
    obtain ⟨-, h⟩ := Option.ite_none_right_eq_some.mp h
    exact Option.some.inj h ▸ Nat.lt_succ_self _

theorem length_readName_le {name : String} (h : readName p l = some (name, rest)) :
    rest.length ≤ l.length := by
  obtain ⟨-, h⟩ := Option.ite_none_right_eq_some.mp h
  obtain ⟨-, rfl⟩ := Prod.mk.inj (Option.some.inj h)
  exact (List.dropWhile_sublist _).length_le

theorem length_readQuoted (h : readQuoted l = some (v, rest)) : rest.length < l.length := by
  fun_induction readQuoted l generalizing v with
  | case1 => exact nomatch h
  | case2 l => exact (Prod.mk.inj (Option.some.inj h)).2 ▸ Nat.lt_succ_self _
  | case3 => exact nomatch h
  | case4 => exact nomatch h
  | case5 _ _ e l ih =>
    obtain ⟨d, -, h⟩ := Option.bind_eq_some_iff.mp h
    obtain ⟨⟨text, rest⟩, hread, heq⟩ := Option.map_eq_some_iff.mp h
    obtain ⟨-, rfl⟩ := Prod.mk.inj heq
    exact Nat.lt_succ_of_lt (Nat.lt_succ_of_lt (ih hread))
  | case6 c l _ _ _ ih =>
    obtain ⟨⟨text, rest⟩, hread, heq⟩ := Option.map_eq_some_iff.mp h
    obtain ⟨-, rfl⟩ := Prod.mk.inj heq
    exact Nat.lt_succ_of_lt (ih hread)

theorem length_readLabel {label : String × String} (h : readLabel l = some (label, rest)) :
    rest.length < l.length := by
  simp only [readLabel, bind, Option.bind_eq_some_iff, pure, Option.some.injEq, Prod.exists,
    Prod.mk.injEq] at h
  obtain ⟨name, l₁, hname, l₂, hequals, l₃, hquote, v, l₄, hquoted, -, rfl⟩ := h
  calc (skip l₄).length ≤ l₄.length := length_skip_le _
    _ < l₃.length := length_readQuoted hquoted
    _ < (skip l₂).length := length_expect hquote
    _ ≤ l₂.length := length_skip_le _
    _ < (skip l₁).length := length_expect hequals
    _ ≤ l₁.length := length_skip_le _
    _ ≤ l.length := length_readName_le hname

/-- Reads labels after the opening brace. -/
def readLabels (l : List Char) : Option (List (String × String) × List Char) :=
  match _ : readLabel l with
  | some (label, ',' :: rest) =>
    (readLabels (skip rest)).map fun (more, rest) => (label :: more, rest)
  | some (label, '\x7d' :: rest) => some ([label], rest)
  | some _ => none
  | none => (expect '\x7d' l).map fun rest => ([], rest)
  termination_by l.length
  decreasing_by
    have hlabel := length_readLabel ‹readLabel l = _›
    have hskip := length_skip_le rest
    rw [List.length_cons] at hlabel
    omega

theorem length_readLabels {labels : List (String × String)}
    (h : readLabels l = some (labels, rest)) :
    rest.length < l.length := by
  fun_induction readLabels l generalizing labels with
  | case1 l label l' hlabel ih =>
    obtain ⟨⟨more, rest⟩, hmore, heq⟩ := Option.map_eq_some_iff.mp h
    obtain ⟨-, rfl⟩ := Prod.mk.inj heq
    calc rest.length < (skip l').length := ih hmore
      _ ≤ l'.length := length_skip_le _
      _ < (',' :: l').length := Nat.lt_succ_self _
      _ < l.length := length_readLabel hlabel
  | case2 l label l' hlabel =>
    obtain ⟨-, rfl⟩ := Prod.mk.inj (Option.some.inj h)
    exact Nat.lt_trans (Nat.lt_succ_self _) (length_readLabel hlabel)
  | case3 => exact nomatch h
  | case4 l hnone =>
    obtain ⟨l', hbrace, heq⟩ := Option.map_eq_some_iff.mp h
    obtain ⟨-, rfl⟩ := Prod.mk.inj heq
    exact length_expect hbrace

/-! ### Lines -/

/-- The characters of numbers: those that are neither blanks nor end the line. -/
def isTokenChar (c : Char) : Bool := !isGap c && c != '\n'

/-- Reads a number, which may be missing. -/
def readToken (l : List Char) : String × List Char :=
  (String.ofList (l.takeWhile isTokenChar), l.dropWhile isTokenChar)

/-- Reads labels in braces, which may be missing. -/
def readSection (l : List Char) : Option (List (String × String) × List Char) :=
  match expect '\x7b' l with
  | some l => readLabels (skip l)
  | none => some ([], l)

/-- Reads the value and the time of a sample to the end of the line. -/
def readNumbers (name : String) (labels : List (String × String)) (l : List Char) :
    Option (Entry × List Char) := do
  let (value, l) := readToken (skip l)
  let (time, l) := readToken (skip l)
  let l ← expect '\n' (skip l)
  if value = "" then none else return (⟨name, labels, value, time⟩, l)

/-- Reads a sample. -/
def readEntry (l : List Char) : Option (Entry × List Char) := do
  let (name, l) ← readName isMetricChar l
  let (labels, l) ← readSection (skip l)
  readNumbers name labels l

theorem length_readSection_le {labels : List (String × String)}
    (h : readSection l = some (labels, rest)) : rest.length ≤ l.length := by
  rw [readSection] at h
  split at h
  · next l' hbrace =>
    calc rest.length ≤ (skip l').length := Nat.le_of_lt (length_readLabels h)
      _ ≤ l'.length := length_skip_le _
      _ ≤ l.length := Nat.le_of_lt (length_expect hbrace)
  · exact (Prod.mk.inj (Option.some.inj h)).2 ▸ Nat.le_refl _

theorem length_readToken_le (l : List Char) : (readToken l).2.length ≤ l.length :=
  (List.dropWhile_sublist _).length_le

theorem length_readNumbers {name : String} {labels : List (String × String)} {entry : Entry}
    (h : readNumbers name labels l = some (entry, rest)) : rest.length < l.length := by
  obtain ⟨l', hend, h⟩ := Option.bind_eq_some_iff.mp h
  obtain ⟨-, h⟩ := Option.ite_none_left_eq_some.mp h
  obtain ⟨-, rfl⟩ := Prod.mk.inj (Option.some.inj h)
  calc l'.length < (skip (readToken (skip (readToken (skip l)).2)).2).length := length_expect hend
    _ ≤ (readToken (skip (readToken (skip l)).2)).2.length := length_skip_le _
    _ ≤ (skip (readToken (skip l)).2).length := length_readToken_le _
    _ ≤ (readToken (skip l)).2.length := length_skip_le _
    _ ≤ (skip l).length := length_readToken_le _
    _ ≤ l.length := length_skip_le _

theorem length_readEntry {entry : Entry} (h : readEntry l = some (entry, rest)) :
    rest.length < l.length := by
  simp only [readEntry, bind, Option.bind_eq_some_iff, Prod.exists] at h
  obtain ⟨name, l₁, hname, labels, l₂, hsection, hnumbers⟩ := h
  calc rest.length < l₂.length := length_readNumbers hnumbers
    _ ≤ (skip l₁).length := length_readSection_le hsection
    _ ≤ l₁.length := length_skip_le _
    _ ≤ l.length := length_readName_le hname

/-- Reads all samples. Empty lines and comments are passed over. -/
def readEntries (l : List Char) : Option (List Entry) :=
  match _ : skip l with
  | [] => some []
  | c :: rest =>
    if c = '\n' then readEntries rest
    else if c = '#' then readEntries (rest.dropWhile (· != '\n'))
    else
      match _ : readEntry (c :: rest) with
      | none => none
      | some (entry, rest) => (readEntries rest).map (entry :: ·)
  termination_by l.length
  decreasing_by
    all_goals
      have hle := length_skip_le l
      rw [‹skip l = _›, List.length_cons] at hle
    · omega
    · have hcomment := (List.dropWhile_sublist (· != '\n') (l := rest)).length_le
      omega
    · have hlt := length_readEntry ‹readEntry _ = _›
      rw [List.length_cons] at hlt
      omega

/-! ### What is read at the front of a text -/

theorem skip_cons {c : Char} (h : isGap c = false) (l : List Char) : skip (c :: l) = c :: l := by
  rw [skip, List.dropWhile_cons_of_neg (by simp [h])]

theorem expect_self (c : Char) (l : List Char) : expect c (c :: l) = some l := by
  rw [expect, if_pos rfl]

theorem span_append {name : List Char} (hname : ∀ c ∈ name, p c = true) {c : Char}
    (hc : p c = false) (l : List Char) :
    (name ++ c :: l).takeWhile p = name ∧ (name ++ c :: l).dropWhile p = c :: l := by
  have hstop : ¬p c = true := by simp [hc]
  rw [List.takeWhile_append_of_pos hname, List.dropWhile_append_of_pos hname,
    List.takeWhile_cons_of_neg hstop, List.dropWhile_cons_of_neg hstop, List.append_nil]
  exact ⟨rfl, rfl⟩

theorem all_of_isName {name : List Char} (h : isName p name = true) : ∀ c ∈ name, p c = true :=
  List.all_eq_true.mp (Bool.and_eq_true_iff.mp h).1

theorem exists_cons_of_isName {name : List Char} (h : isName p name = true) :
    ∃ c t, name = c :: t ∧ p c = true := by
  cases name with
  | nil => exact absurd h (by simp [isName])
  | cons c t => exact ⟨c, t, rfl, all_of_isName h c List.mem_cons_self⟩

/-- The characters of names are neither blanks, nor do they end a line or begin a comment. -/
theorem spec_of_isMetricChar {c : Char} (h : isMetricChar c = true) :
    isGap c = false ∧ c ≠ '\n' ∧ c ≠ '#' := by
  refine ⟨Bool.eq_false_iff.mpr fun hgap => ?_, ?_, ?_⟩
  · rw [isGap, Bool.or_eq_true, beq_iff_eq, beq_iff_eq] at hgap
    rcases hgap with rfl | rfl <;> exact absurd h (by decide)
  · rintro rfl
    exact absurd h (by decide)
  · rintro rfl
    exact absurd h (by decide)

/-- A name is read up to the first character of another kind. -/
theorem readName_append {name : String} (h : isName p name.toList = true) {c : Char}
    (hc : p c = false) (l : List Char) :
    readName p (name.toList ++ c :: l) = some (name, c :: l) := by
  obtain ⟨htake, hdrop⟩ := span_append (all_of_isName h) hc l
  rw [readName, htake, hdrop, if_pos h, String.ofList_toList]

/-- A label is read with its name as it is written, if what follows in quotes is read. -/
theorem readLabel_append {name : String} (h : isName isLabelChar name.toList = true)
    (l : List Char) : readLabel (name.toList ++ '=' :: '"' :: l) =
      (readQuoted l).map fun (v, rest) => ((name, String.ofList v), skip rest) := by
  have hequals : expect '=' (skip ('=' :: '"' :: l)) = some ('"' :: l) := by
    rw [skip_cons (by decide), expect_self]
  have hquote : expect '"' (skip ('"' :: l)) = some l := by
    rw [skip_cons (by decide), expect_self]
  simp only [readLabel, readName_append h (show isLabelChar '=' = false by decide), hequals, hquote,
    Option.bind_eq_bind, Option.bind_some]
  cases readQuoted l <;> rfl

theorem readLabels_comma {label : String × String} (h : readLabel l = some (label, ',' :: rest)) :
    readLabels l = (readLabels (skip rest)).map fun (more, rest) => (label :: more, rest) := by
  rw [readLabels.eq_def]
  split <;> simp_all

theorem readLabels_brace {label : String × String}
    (h : readLabel l = some (label, '\x7d' :: rest)) :
    readLabels l = some ([label], rest) := by
  rw [readLabels.eq_def]
  split <;> simp_all

theorem readLabels_nil (l : List Char) : readLabels ('\x7d' :: l) = some ([], l) := by
  have hnone : readLabel ('\x7d' :: l) = none := rfl
  rw [readLabels.eq_def]
  split <;> simp_all [expect_self]

/-- The first of several labels is read before the others. -/
theorem exists_of_readLabels {label : String × String} {more : List (String × String)}
    (h : readLabels l = some (label :: more, rest)) :
    ∃ l', readLabel l = some (label, l') ∧
      ((∃ l'', l' = ',' :: l'' ∧ readLabels (skip l'') = some (more, rest)) ∨
        l' = '\x7d' :: rest ∧ more = []) := by
  rw [readLabels.eq_def] at h
  split at h
  · next first l' hfirst =>
    obtain ⟨⟨more', rest'⟩, hmore, heq⟩ := Option.map_eq_some_iff.mp h
    obtain ⟨hlabels, rfl⟩ := Prod.mk.inj heq
    obtain ⟨rfl, rfl⟩ := List.cons.inj hlabels
    exact ⟨_, hfirst, .inl ⟨l', rfl, hmore⟩⟩
  · next first l' hfirst =>
    obtain ⟨hlabels, rfl⟩ := Prod.mk.inj (Option.some.inj h)
    obtain ⟨rfl, rfl⟩ := List.cons.inj hlabels
    exact ⟨_, hfirst, .inr ⟨rfl, rfl⟩⟩
  · exact nomatch h
  · obtain ⟨l', -, heq⟩ := Option.map_eq_some_iff.mp h
    exact nomatch (Prod.mk.inj heq).1

/-! ### Samples -/

/-- The text of a number: it is not empty, and has neither blanks nor line feeds. -/
def isToken (t : List Char) : Bool := !t.isEmpty && t.all isTokenChar

theorem readToken_append {t : List Char} (h : ∀ c ∈ t, isTokenChar c = true) (l : List Char) :
    readToken (t ++ '\n' :: l) = (String.ofList t, '\n' :: l) := by
  obtain ⟨htake, hdrop⟩ := span_append h (show isTokenChar '\n' = false by decide) l
  rw [readToken, htake, hdrop]

/-- A value is read as it is written, without a time. -/
theorem readNumbers_append {name value : String} {labels : List (String × String)}
    (h : isToken value.toList = true) (tail : List Char) :
    readNumbers name labels (' ' :: (value.toList ++ '\n' :: tail)) =
      some (⟨name, labels, value, ""⟩, tail) := by
  obtain ⟨hne, htoken⟩ := Bool.and_eq_true_iff.mp h
  rw [List.all_eq_true] at htoken
  have hskip : skip (' ' :: (value.toList ++ '\n' :: tail)) = value.toList ++ '\n' :: tail := by
    cases hvalue : value.toList with
    | nil => simp [hvalue] at hne
    | cons c t =>
      have hc : isTokenChar c = true := htoken c (hvalue ▸ List.mem_cons_self)
      rw [isTokenChar, Bool.and_eq_true, Bool.not_eq_true'] at hc
      exact skip_cons hc.1 _
  have hend : skip ('\n' :: tail) = '\n' :: tail := skip_cons (by decide) tail
  have hnonempty : ¬value = "" := fun hempty => by simp [hempty] at hne
  have htime := readToken_append (t := []) (fun c hc => absurd hc List.not_mem_nil) tail
  rw [List.nil_append] at htime
  simp only [readNumbers, hskip, readToken_append htoken, hend, htime, expect_self,
    String.ofList_toList, Option.bind_eq_bind, Option.bind_some, if_neg hnonempty]
  rfl

theorem labels_of_readNumbers {name : String} {labels : List (String × String)} {entry : Entry}
    (h : readNumbers name labels l = some (entry, rest)) : entry.labels = labels := by
  obtain ⟨l', -, h⟩ := Option.bind_eq_some_iff.mp h
  obtain ⟨-, h⟩ := Option.ite_none_left_eq_some.mp h
  exact (Prod.mk.inj (Option.some.inj h)).1 ▸ rfl

theorem readEntry_append {name : String} (h : isName isMetricChar name.toList = true)
    (l : List Char) : readEntry (name.toList ++ '\x7b' :: l) =
      (readLabels (skip l)).bind fun (labels, rest) => readNumbers name labels rest := by
  simp only [readEntry, readName_append h (show isMetricChar '\x7b' = false by decide),
    skip_cons (show isGap '\x7b' = false by decide), readSection, expect_self, Option.bind_eq_bind,
    Option.bind_some]

/-- A line that starts with a name is a sample. -/
theorem readEntries_cons {c : Char} (h : isMetricChar c = true) (l : List Char) :
    readEntries (c :: l) = (readEntry (c :: l)).bind fun (entry, rest) =>
      (readEntries rest).map (entry :: ·) := by
  obtain ⟨hgap, hend, hcomment⟩ := spec_of_isMetricChar h
  rw [readEntries.eq_def]
  split
  · next hskip => exact nomatch (skip_cons hgap l).symm.trans hskip
  · next hskip =>
    obtain ⟨rfl, rfl⟩ := List.cons.inj ((skip_cons hgap l).symm.trans hskip)
    rw [if_neg hend, if_neg hcomment]
    split
    · next hentry => rw [hentry, Option.bind_none]
    · next hentry => rw [hentry, Option.bind_some]

/-! ### Text in quotes -/

/-- A character as it is written between quotes. -/
def escapeChar (c : Char) : List Char :=
  if c = '\\' then ['\\', '\\']
  else if c = '"' then ['\\', '"']
  else if c = '\n' then ['\\', 'n']
  else [c]

/-- The text with backslashes where they are needed. -/
def escape (v : List Char) : List Char := v.flatMap escapeChar

/-- The character needs no backslash. -/
def IsPlainChar (c : Char) : Prop := c ≠ '\\' ∧ c ≠ '"' ∧ c ≠ '\n'

instance : DecidablePred IsPlainChar := fun _ => inferInstanceAs (Decidable (_ ∧ _ ∧ _))

/-- The text needs no backslashes. -/
def IsPlain (v : List Char) : Prop := ∀ c ∈ v, IsPlainChar c

instance : DecidablePred IsPlain := List.decidableBAll IsPlainChar

theorem escapeChar_of_isPlainChar {c : Char} (h : IsPlainChar c) : escapeChar c = [c] := by
  rw [escapeChar, if_neg h.1, if_neg h.2.1, if_neg h.2.2]

theorem char_cases (c : Char) : c = '\\' ∨ c = '"' ∨ c = '\n' ∨ IsPlainChar c := by
  by_cases hback : c = '\\'
  · exact .inl hback
  · by_cases hquote : c = '"'
    · exact .inr (.inl hquote)
    · by_cases hline : c = '\n'
      · exact .inr (.inr (.inl hline))
      · exact .inr (.inr (.inr ⟨hback, hquote, hline⟩))

theorem escape_of_isPlain (h : IsPlain v) : escape v = v := by
  induction v with
  | nil => rfl
  | cons c v ih =>
    obtain ⟨hc, hv⟩ := List.forall_mem_cons.mp h
    rw [escape, List.flatMap_cons, escapeChar_of_isPlainChar hc]
    exact congrArg (c :: ·) (ih hv)

theorem readQuoted_quote (l : List Char) : readQuoted ('"' :: l) = some ([], l) := by
  rw [readQuoted.eq_def]
  exact if_pos rfl

theorem readQuoted_lineFeed (l : List Char) : readQuoted ('\n' :: l) = none := by
  rw [readQuoted.eq_def]
  exact (if_neg (by decide)).trans (if_pos rfl)

theorem readQuoted_backslash (e : Char) (l : List Char) : readQuoted ('\\' :: e :: l) =
    (escapedAs? e).bind fun d => (readQuoted l).map fun (text, rest) => (d :: text, rest) := by
  rw [readQuoted.eq_def]
  exact (if_neg (by decide)).trans ((if_neg (by decide)).trans (if_pos rfl))

theorem readQuoted_cons {c : Char} (h : IsPlainChar c) (l : List Char) :
    readQuoted (c :: l) = (readQuoted l).map fun (text, rest) => (c :: text, rest) := by
  rw [readQuoted.eq_def]
  exact (if_neg h.2.1).trans ((if_neg h.2.2).trans (if_neg h.1))

/-- **Escaped text is read.** -/
theorem readQuoted_escape (v l : List Char) : readQuoted (escape v ++ '"' :: l) = some (v, l) := by
  induction v with
  | nil => exact readQuoted_quote l
  | cons c v ih =>
    have hcons : escape (c :: v) ++ '"' :: l = escapeChar c ++ (escape v ++ '"' :: l) := by
      rw [escape, List.flatMap_cons, List.append_assoc]
      rfl
    have hescaped : ∀ e, escapeChar c = ['\\', e] → escapedAs? e = some c →
        readQuoted (escape (c :: v) ++ '"' :: l) = some (c :: v, l) := by
      intro e hc he
      rw [hcons, hc, List.cons_append, List.cons_append, List.nil_append, readQuoted_backslash, he,
        ih]
      rfl
    rcases char_cases c with rfl | rfl | rfl | hplain
    · exact hescaped '\\' rfl rfl
    · exact hescaped '"' rfl rfl
    · exact hescaped 'n' rfl rfl
    · rw [hcons, escapeChar_of_isPlainChar hplain, List.cons_append, List.nil_append,
        readQuoted_cons hplain, ih]
      rfl

/-- A backslash is read where two are written. -/
theorem readQuoted_backslash_eq_some (h : readQuoted ('\\' :: l) = some ('\\' :: v, rest)) :
    ∃ l', l = '\\' :: l' ∧ readQuoted l' = some (v, rest) := by
  cases l with
  | nil => exact nomatch h
  | cons e l =>
    have hbackslash : escapedAs? e = some '\\' → e = '\\' := by
      rw [escapedAs?.eq_def]
      split <;> simp
    rw [readQuoted_backslash] at h
    obtain ⟨d, hd, h⟩ := Option.bind_eq_some_iff.mp h
    obtain ⟨⟨text, rest⟩, hread, heq⟩ := Option.map_eq_some_iff.mp h
    obtain ⟨htext, rfl⟩ := Prod.mk.inj heq
    obtain ⟨rfl, rfl⟩ := List.cons.inj htext
    exact ⟨l, by rw [hbackslash hd], hread⟩

/-- **Text that is read as it stands is plain.** A backslash in it is not read itself, but lets the
character after it be read. That has to be another backslash, and after it one more is still to be
read than is written. There is no end to that, since each of these needs two that are written. -/
theorem eq_of_readQuoted {k : Nat}
    (h : readQuoted (v ++ '"' :: l) = some (List.replicate k '\\' ++ v, rest)) :
    k = 0 ∧ IsPlain v ∧ rest = l := by
  induction hlen : v.length using Nat.strongRecOn generalizing v k with
  | ind n ih =>
  subst hlen
  cases v with
  | nil =>
    rw [List.nil_append, readQuoted_quote, List.append_nil] at h
    obtain ⟨hk, rfl⟩ := Prod.mk.inj (Option.some.inj h)
    exact ⟨(List.replicate_eq_nil_iff _).mp hk.symm, fun c hc => absurd hc List.not_mem_nil, rfl⟩
  | cons c v =>
    rw [List.cons_append] at h
    rcases char_cases c with rfl | rfl | rfl | hplain
    · have hfront : ∀ x,
          List.replicate k '\\' ++ '\\' :: x = '\\' :: (List.replicate k '\\' ++ x) := by
        intro x
        rw [← List.cons_append, ← List.replicate_succ, List.replicate_succ', List.append_assoc,
          List.singleton_append]
      rw [hfront] at h
      obtain ⟨l', hl, hread⟩ := readQuoted_backslash_eq_some h
      cases v with
      | nil => exact absurd (List.cons.inj hl).1 (by decide)
      | cons e v =>
        obtain ⟨rfl, hl'⟩ := List.cons.inj hl
        rw [← show v ++ '"' :: l = l' from hl', hfront] at hread
        have hshorter : v.length < ('\\' :: '\\' :: v).length := by
          simp only [List.length_cons]
          omega
        exact absurd (ih v.length hshorter (k := k + 1) hread rfl).1 (Nat.succ_ne_zero k)
    · rw [readQuoted_quote] at h
      exact absurd (Prod.mk.inj (Option.some.inj h)).1.symm (by simp)
    · rw [readQuoted_lineFeed] at h
      exact nomatch h
    · rw [readQuoted_cons hplain] at h
      obtain ⟨⟨text, rest⟩, hread, heq⟩ := Option.map_eq_some_iff.mp h
      obtain ⟨htext, rfl⟩ := Prod.mk.inj heq
      cases k with
      | succ k => exact absurd (List.cons.inj htext).1 hplain.1
      | zero =>
        obtain rfl := (List.cons.inj htext).2
        obtain ⟨-, hv, hrest⟩ := ih text.length (Nat.lt_succ_self _) (k := 0) hread rfl
        exact ⟨rfl, List.forall_mem_cons.mpr ⟨hplain, hv⟩, hrest⟩

/-- Text is read as it stands only if it is plain. -/
theorem isPlain_of_readQuoted (h : readQuoted (v ++ '"' :: l) = some (v, rest)) :
    IsPlain v ∧ rest = l :=
  (eq_of_readQuoted (k := 0) h).2

end RpkiAuthority.Exposition
