import RpkiAuthority.Text.Pieces

/-!
# Cutting undoes joining

Texts that are joined with a separator come out again when the joined text is cut at it, provided
that the separator does not occur in them. Cutting into pieces is the splitting of lists
(`Text.piecesBy_eq_splitOnP`), so the facts about pieces are those of that operation; cutting at the
first occurrence gives the only two texts around a separator of which the first one is free of it
(`Text.cutAt_eq_some_iff`). The same holds of separators of two characters
(`Text.piecesAtPair_append`) and of lines (`Text.lines_join`). Words come apart at every blank
(`Text.words_append`), and none is lost by trimming (`Text.words_trimmed`).
-/

namespace RpkiAuthority.Text

variable {sep c : Char} {l x y : List Char}

/-! ### Cutting once -/

/-- A text without the separator is not cut. -/
theorem cutAt_eq_none_iff : cutAt sep l = none ↔ sep ∉ l := by
  induction l with
  | nil => simp [cutAt]
  | cons c l ih =>
    rw [cutAt, List.mem_cons, not_or]
    split
    · next h => simp [h]
    · next h => simp [ih, Ne.symm h]

/-- **A text is cut at the first separator**, and at no other place. -/
theorem cutAt_eq_some_iff : cutAt sep l = some (x, y) ↔ l = x ++ sep :: y ∧ sep ∉ x := by
  induction l generalizing x with
  | nil => simp [cutAt]
  | cons c l ih =>
    rw [cutAt]
    split
    · next h =>
      subst h
      cases x with
      | nil => simp [eq_comm]
      | cons d x => simp +contextual
    · next h =>
      rw [Option.map_eq_some_iff]
      cases x with
      | nil => simp [h]
      | cons d x =>
        simp only [Prod.exists, Prod.mk.injEq, List.cons.injEq, List.cons_append, List.mem_cons]
        grind

/-- There is only one first separator. -/
theorem eq_of_cut {x' y' : List Char} (h : l = x ++ sep :: y) (hx : sep ∉ x)
    (h' : l = x' ++ sep :: y') (hx' : sep ∉ x') : x = x' ∧ y = y' := by
  have hcut : cutAt sep l = some (x, y) := cutAt_eq_some_iff.mpr ⟨h, hx⟩
  exact Prod.mk.inj (Option.some.inj (hcut.symm.trans (cutAt_eq_some_iff.mpr ⟨h', hx'⟩)))

/-! ### Pieces -/

theorem piecesBy_eq_splitOnP (p : Char → Bool) (l : List Char) : piecesBy p l = l.splitOnP p := by
  induction l with
  | nil => rfl
  | cons c l ih =>
    rw [piecesBy, List.splitOnP_cons_eq_if_modifyHead, ih]
    split
    · rfl
    · cases h : l.splitOnP p with
      | nil => exact absurd h (List.splitOnP_ne_nil p l)
      | cons piece more => rfl

/-- The characters of a piece are those of the text, and no separators. -/
theorem mem_piecesBy {p : Char → Bool} {piece : List Char} (hpiece : piece ∈ piecesBy p l)
    (hc : c ∈ piece) : c ∈ l ∧ p c = false := by
  induction l generalizing piece with
  | nil =>
    obtain rfl := List.mem_singleton.mp hpiece
    exact absurd hc List.not_mem_nil
  | cons d l ih =>
    have hmore : ∀ {piece}, piece ∈ piecesBy p l → c ∈ piece → c ∈ d :: l ∧ p c = false :=
      fun hpiece hc => (ih hpiece hc).imp_left (List.mem_cons_of_mem d)
    rw [piecesBy] at hpiece
    split at hpiece
    · rcases List.mem_cons.mp hpiece with rfl | hpiece
      · exact absurd hc List.not_mem_nil
      · exact hmore hpiece hc
    · next hd =>
      have hself : d ∈ d :: l ∧ p d = false := ⟨List.mem_cons_self, by simpa using hd⟩
      split at hpiece
      · obtain rfl := List.mem_singleton.mp hpiece
        obtain rfl := List.mem_singleton.mp hc
        exact hself
      · next first more hpieces =>
        rcases List.mem_cons.mp hpiece with rfl | hpiece
        · rcases List.mem_cons.mp hc with rfl | hc
          · exact hself
          · exact hmore (hpieces ▸ List.mem_cons_self) hc
        · exact hmore (hpieces ▸ List.mem_cons_of_mem first hpiece) hc

theorem piecesAt_eq_splitOn (sep : Char) (l : List Char) : piecesAt sep l = l.splitOn sep :=
  piecesBy_eq_splitOnP _ _

/-- **Joined texts are the pieces** of what they are joined to. -/
theorem piecesAt_intercalate {texts : List (List Char)} (h : ∀ t ∈ texts, sep ∉ t)
    (hne : texts ≠ []) : piecesAt sep ([sep].intercalate texts) = texts := by
  rw [piecesAt_eq_splitOn, List.splitOn_intercalate sep h hne]

theorem piecesAt_cons_self (l : List Char) : piecesAt sep (sep :: l) = [] :: piecesAt sep l := by
  rw [piecesAt, piecesBy, if_pos (beq_self_eq_true sep)]

/-- A character that is no separator belongs to the first piece. -/
theorem piecesAt_cons_of_ne (h : c ≠ sep) (l : List Char) :
    ∃ piece more, piecesAt sep l = piece :: more ∧
      piecesAt sep (c :: l) = (c :: piece) :: more := by
  cases hl : piecesAt sep l with
  | nil => exact absurd hl (piecesAt_eq_splitOn sep l ▸ List.splitOnP_ne_nil _ l)
  | cons piece more =>
    refine ⟨piece, more, rfl, ?_⟩
    rw [piecesAt, piecesBy, if_neg (by simpa using h), show piecesBy (· == sep) l = _ from hl]

/-- The pieces on both sides of a separator. -/
theorem piecesAt_append (x y : List Char) :
    piecesAt sep (x ++ sep :: y) = piecesAt sep x ++ piecesAt sep y := by
  simp only [piecesAt_eq_splitOn]
  exact List.splitOnP_append_cons x y (beq_self_eq_true sep)

/-- The last piece ends where the text does. -/
theorem exists_piecesAt_concat (h : c ≠ sep) (x : List Char) :
    ∃ first last, piecesAt sep (x ++ [c]) = first ++ [last ++ [c]] := by
  induction x with
  | nil =>
    refine ⟨[], [], ?_⟩
    obtain ⟨piece, more, hnil, hcons⟩ := piecesAt_cons_of_ne h ([] : List Char)
    obtain ⟨rfl, rfl⟩ := List.cons.inj hnil
    exact hcons
  | cons d x ih =>
    obtain ⟨first, last, hx⟩ := ih
    by_cases hd : d = sep
    · subst hd
      exact ⟨[] :: first, last, by rw [List.cons_append, piecesAt_cons_self, hx, List.cons_append]⟩
    · obtain ⟨piece, more, hpieces, hcons⟩ := piecesAt_cons_of_ne hd (x ++ [c])
      rw [List.cons_append, hcons]
      rw [hx] at hpieces
      cases first with
      | nil =>
        obtain ⟨rfl, rfl⟩ := List.cons.inj hpieces
        exact ⟨[], d :: last, rfl⟩
      | cons piece' first =>
        obtain ⟨rfl, rfl⟩ := List.cons.inj hpieces
        exact ⟨(d :: piece') :: first, last, rfl⟩

/-- A text without the separator is one piece. -/
theorem piecesAt_eq_singleton (h : sep ∉ l) : piecesAt sep l = [l] := by
  rw [piecesAt_eq_splitOn]
  exact List.splitOnP_eq_singleton fun c hc => beq_eq_false_iff_ne.mpr fun heq => h (heq ▸ hc)

/-- The joined text as a list of characters. -/
theorem toList_join (sep : String) (texts : List String) :
    (join sep texts).toList = sep.toList.intercalate (texts.map String.toList) := by
  induction texts with
  | nil => rfl
  | cons t texts ih =>
    cases texts with
    | nil => simp [join]
    | cons u texts =>
      rw [join, String.toList_append, String.toList_append, ih]
      · simp only [List.map_cons, List.intercalate_cons_cons]
      · exact List.cons_ne_nil u texts

/-- The characters of joined texts are the separators and those of the texts. -/
theorem mem_intercalate {texts : List (List Char)}
    (h : c ∈ l.intercalate texts) : c ∈ l ∨ ∃ t ∈ texts, c ∈ t := by
  induction texts with
  | nil => exact absurd h List.not_mem_nil
  | cons t texts ih =>
    cases texts with
    | nil => exact .inr ⟨t, List.mem_cons_self, by simpa using h⟩
    | cons u texts =>
      rw [List.intercalate_cons_cons, List.append_assoc, List.mem_append, List.mem_append] at h
      rcases h with h | h | h
      · exact .inr ⟨t, List.mem_cons_self, h⟩
      · exact .inl h
      · exact (ih h).imp_right fun ⟨v, hv, hc⟩ => ⟨v, List.mem_cons_of_mem t hv, hc⟩

/-- The characters of a text are the separator and those of the pieces. -/
theorem eq_or_mem_piecesAt (sep : Char) (h : c ∈ l) : c = sep ∨ ∃ t ∈ piecesAt sep l, c ∈ t := by
  have hjoined : [sep].intercalate (piecesAt sep l) = l := by
    rw [piecesAt_eq_splitOn, List.intercalate_splitOn]
  rw [← hjoined] at h
  exact (mem_intercalate h).imp_left List.mem_singleton.mp

/-! ### Beginnings and endings -/

/-- **What is left after a beginning** is the rest of the text. -/
theorem dropBeginning?_eq_some_iff {b r : List Char} :
    dropBeginning? b l = some r ↔ l = b ++ r := by
  induction b generalizing l with
  | nil => simp [dropBeginning?]
  | cons c b ih =>
    cases l with
    | nil => simp [dropBeginning?]
    | cons d l =>
      rw [dropBeginning?]
      split
      · next h => simp [ih, h]
      · next h => simp [Ne.symm h]

/-- **What is left before an ending** is the rest of the text. -/
theorem dropEnding?_eq_some_iff {e r : List Char} : dropEnding? e l = some r ↔ l = r ++ e := by
  rw [dropEnding?, Option.map_eq_some_iff]
  constructor
  · rintro ⟨x, hx, rfl⟩
    have hl := congrArg List.reverse (dropBeginning?_eq_some_iff.mp hx)
    simpa using hl
  · rintro rfl
    exact ⟨r.reverse, dropBeginning?_eq_some_iff.mpr (by simp), by simp⟩

/-- A text has no ending with a character that is not in it. -/
theorem dropEnding?_eq_none {e : List Char} (hc : c ∈ e) (h : c ∉ l) : dropEnding? e l = none := by
  rw [Option.eq_none_iff_forall_ne_some]
  intro r hr
  exact h (dropEnding?_eq_some_iff.mp hr ▸ List.mem_append_right r hc)

/-! ### Separators of two characters -/

section

variable {a b : Char}

theorem piecesAtPair_ne_nil (l : List Char) : piecesAtPair a b l ≠ [] := by
  fun_cases piecesAtPair a b l <;> simp

/-- A character that no separator starts with belongs to the first piece. -/
theorem piecesAtPair_cons (h : c ≠ a) (l : List Char) :
    piecesAtPair a b (c :: l) = (piecesAtPair a b l).modifyHead (c :: ·) := by
  cases l with
  | nil => rfl
  | cons d l =>
    rw [piecesAtPair, if_neg fun heq => h heq.1]
    cases hl : piecesAtPair a b (d :: l) with
    | nil => exact absurd hl (piecesAtPair_ne_nil _)
    | cons piece more => rfl

/-- A text without the first character of the separator is one piece. -/
theorem piecesAtPair_eq_singleton (h : a ∉ x) : piecesAtPair a b x = [x] := by
  induction x with
  | nil => rfl
  | cons c x ih =>
    rw [List.mem_cons, not_or] at h
    rw [piecesAtPair_cons (Ne.symm h.1), ih h.2]
    rfl

/-- **A text is cut at the separator** if its first character does not occur before. -/
theorem piecesAtPair_append (h : a ∉ x) (y : List Char) :
    piecesAtPair a b (x ++ a :: b :: y) = x :: piecesAtPair a b y := by
  induction x with
  | nil => simp [piecesAtPair]
  | cons c x ih =>
    rw [List.mem_cons, not_or] at h
    rw [List.cons_append, piecesAtPair_cons (Ne.symm h.1), ih h.2]
    rfl

end

/-! ### Lines -/

/-- Lines that are not empty and have no carriage returns are left as they are. -/
theorem lines_go_eq_self {pieces : List (List Char)} (h : ∀ t ∈ pieces, t ≠ [] ∧ '\r' ∉ t) :
    lines.go pieces = pieces := by
  induction pieces with
  | nil => rfl
  | cons t pieces ih =>
    obtain ⟨⟨hne, hreturn⟩, hmore⟩ := List.forall_mem_cons.mp h
    cases pieces with
    | nil => rw [lines.go, if_neg (by simpa using hne)]
    | cons u pieces =>
      have hline : dropCarriageReturn t = t := by
        rw [dropCarriageReturn, dropEnding?_eq_none List.mem_cons_self hreturn]
        rfl
      rw [lines.go, ih hmore, hline]
      exact List.cons_ne_nil u pieces

/-- **Joined lines are the lines** of what they are joined to. -/
theorem lines_join {texts : List String}
    (h : ∀ t ∈ texts, t.toList ≠ [] ∧ '\n' ∉ t.toList ∧ '\r' ∉ t.toList) :
    lines (join "\n" texts).toList = texts.map String.toList := by
  cases texts with
  | nil => rfl
  | cons t texts =>
    have hsep : "\n".toList = ['\n'] := rfl
    rw [lines, toList_join, hsep, piecesAt_intercalate _ (by simp)]
    · exact lines_go_eq_self (List.forall_mem_map.mpr fun u hu => ⟨(h u hu).1, (h u hu).2.2⟩)
    · exact List.forall_mem_map.mpr fun u hu => (h u hu).2.1

/-- A line that ends with anything else keeps it. -/
theorem dropCarriageReturn_concat (h : c ≠ '\r') (l : List Char) :
    dropCarriageReturn (l ++ [c]) = l ++ [c] := by
  have hnone : dropEnding? ['\r'] (l ++ [c]) = none := by
    rw [Option.eq_none_iff_forall_ne_some]
    intro r hr
    have hlast := List.append_inj_right' (dropEnding?_eq_some_iff.mp hr) rfl
    exact h (List.singleton_inj.mp hlast)
  rw [dropCarriageReturn, hnone, Option.getD_none]

/-- All pieces but those at the end lose the carriage return. -/
theorem lines_go_append (first : List (List Char)) {last : List (List Char)} (hne : last ≠ []) :
    lines.go (first ++ last) = first.map dropCarriageReturn ++ lines.go last := by
  induction first with
  | nil => rfl
  | cons piece first ih =>
    rw [List.cons_append, lines.go, ih, List.map_cons, List.cons_append]
    exact List.append_ne_nil_of_right_ne_nil first hne

theorem lines_go_singleton {piece : List Char} (h : piece ≠ []) : lines.go [piece] = [piece] := by
  rw [lines.go, if_neg (by simpa using h)]

/-- **The lines before and after a line feed**, where the text before it ends with neither a line
feed nor a carriage return. -/
theorem lines_append (hc : c ≠ '\n') (hr : c ≠ '\r') (x y : List Char) :
    lines (x ++ [c] ++ '\n' :: y) = lines (x ++ [c]) ++ lines y := by
  obtain ⟨first, last, hx⟩ := exists_piecesAt_concat hc x
  have hne : last ++ [c] ≠ [] := List.append_ne_nil_of_right_ne_nil last (List.cons_ne_nil c [])
  have hy : piecesAt '\n' y ≠ [] := piecesAt_eq_splitOn '\n' y ▸ List.splitOnP_ne_nil _ y
  rw [lines, lines, lines, piecesAt_append, hx, List.append_assoc,
    lines_go_append first (List.append_ne_nil_of_left_ne_nil (List.cons_ne_nil _ []) _),
    lines_go_append first (List.cons_ne_nil _ []), lines_go_append _ hy, lines_go_singleton hne,
    List.map_singleton, dropCarriageReturn_concat hr, List.append_assoc]

/-- The lines of a joined text are those of each of its texts, if these end with neither a line feed
nor a carriage return. -/
theorem lines_join_of_ends {texts : List String} (hc : c ≠ '\n') (hr : c ≠ '\r')
    (h : ∀ t ∈ texts, ∃ x, t.toList = x ++ [c]) :
    lines (join "\n" texts).toList = texts.flatMap fun t => lines t.toList := by
  induction texts with
  | nil => rfl
  | cons t texts ih =>
    obtain ⟨⟨x, hx⟩, hmore⟩ := List.forall_mem_cons.mp h
    cases texts with
    | nil => exact (List.append_nil _).symm
    | cons u texts =>
      have hjoin : (join "\n" (t :: u :: texts)).toList =
          x ++ [c] ++ '\n' :: (join "\n" (u :: texts)).toList := by
        rw [join, String.toList_append, String.toList_append, hx]
        · exact List.append_assoc _ _ _
        · exact List.cons_ne_nil u texts
      rw [hjoin, lines_append hc hr, ih hmore, ← hx]
      rfl

/-! ### Blanks -/

/-- Blanks in front are trimmed. -/
theorem trimmed_cons_of_isBlank (h : isBlank c = true) : trimmed (c :: l) = trimmed l := by
  rw [trimmed, List.dropWhile_cons_of_pos h]
  rfl

/-- Blanks at the end are trimmed. -/
theorem trimmed_concat_of_isBlank (h : isBlank c = true) : trimmed (l ++ [c]) = trimmed l := by
  have hlast : [c].dropWhile isBlank = [] := by
    rw [List.dropWhile_cons_of_pos h, List.dropWhile_nil]
  rw [trimmed, List.dropWhile_append, hlast]
  split
  · next hnil => rw [trimmed, List.isEmpty_iff.mp hnil]
  · rw [List.reverse_append, List.reverse_singleton, List.singleton_append,
      List.dropWhile_cons_of_pos h]
    rfl

/-- The first character that is not a blank is kept. -/
theorem exists_trimmed_cons (h : isBlank c = false) (l : List Char) :
    ∃ rest, trimmed (c :: l) = c :: rest := by
  have hlast : [c].dropWhile isBlank = [c] := List.dropWhile_cons_of_neg (by simp [h])
  rw [trimmed, List.dropWhile_cons_of_neg (by simp [h]), List.reverse_cons, List.dropWhile_append,
    hlast]
  split
  · exact ⟨[], rfl⟩
  · exact ⟨_, List.reverse_concat⟩

/-- A text without blanks is not trimmed. -/
theorem trimmed_eq_self (h : ∀ c ∈ l, isBlank c = false) : trimmed l = l := by
  have hdrop : ∀ {l : List Char}, (∀ c ∈ l, isBlank c = false) → l.dropWhile isBlank = l := by
    intro l hl
    cases l with
    | nil => rfl
    | cons c l => exact List.dropWhile_cons_of_neg (by simp [hl c List.mem_cons_self])
  rw [trimmed, hdrop h, hdrop fun c hc => h c (List.mem_reverse.mp hc), List.reverse_reverse]

/-- Only blanks are trimmed. -/
theorem exists_trimmed (l : List Char) :
    ∃ pre post, l = pre ++ trimmed l ++ post ∧ (∀ c ∈ pre, isBlank c = true) ∧
      ∀ c ∈ post, isBlank c = true := by
  have hblank : ∀ (l : List Char), ∀ c ∈ l.takeWhile isBlank, isBlank c = true :=
    fun l c hc => List.all_eq_true.mp (List.all_takeWhile (l := l)) c hc
  refine ⟨l.takeWhile isBlank, ((l.dropWhile isBlank).reverse.takeWhile isBlank).reverse, ?_,
    hblank l, fun c hc => hblank _ c (List.mem_reverse.mp hc)⟩
  rw [trimmed, List.append_assoc, ← List.reverse_append, List.takeWhile_append_dropWhile,
    List.reverse_reverse, List.takeWhile_append_dropWhile]

/-! ### Words -/

/-- The words on both sides of a blank. -/
theorem words_append (h : isBlank c = true) (x y : List Char) :
    words (x ++ c :: y) = words x ++ words y := by
  simp only [words, piecesBy_eq_splitOnP]
  rw [List.splitOnP_append_cons x y h, List.filter_append]

/-- A text without blanks is one word. -/
theorem words_eq_singleton (hne : l ≠ []) (h : ∀ c ∈ l, isBlank c = false) : words l = [l] := by
  rw [words, piecesBy_eq_splitOnP, List.splitOnP_eq_singleton h]
  exact List.filter_eq_self.mpr (by simpa using hne)

/-- The characters of a word are those of the text, and no blanks. -/
theorem mem_words {w : List Char} (hw : w ∈ words l) (hc : c ∈ w) : c ∈ l ∧ isBlank c = false :=
  mem_piecesBy (List.mem_filter.mp hw).1 hc

/-- Blanks in front are in no word. -/
theorem words_append_of_blanks (h : ∀ c ∈ x, isBlank c = true) (l : List Char) :
    words (x ++ l) = words l := by
  induction x with
  | nil => rfl
  | cons c x ih =>
    obtain ⟨hc, hx⟩ := List.forall_mem_cons.mp h
    exact (words_append hc [] (x ++ l)).trans (ih hx)

theorem words_eq_nil (h : ∀ c ∈ l, isBlank c = true) : words l = [] := by
  rw [← List.append_nil l, words_append_of_blanks h]
  rfl

/-- Trimming takes no words away. -/
theorem words_trimmed (l : List Char) : words (trimmed l) = words l := by
  obtain ⟨pre, post, heq, hpre, hpost⟩ := exists_trimmed l
  have hback : words l = words (trimmed l ++ post) :=
    (congrArg words (heq.trans (List.append_assoc _ _ _))).trans (words_append_of_blanks hpre _)
  rw [hback]
  cases post with
  | nil => rw [List.append_nil]
  | cons c post =>
    obtain ⟨hc, hmore⟩ := List.forall_mem_cons.mp hpost
    rw [words_append hc, words_eq_nil hmore, List.append_nil]

end RpkiAuthority.Text
