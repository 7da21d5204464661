import RpkiAuthority.Proofs.Resource.Cut
import RpkiAuthority.Proofs.Resource.RoundTrip

/-!
# Dumps of route collectors are read back

A dump is a list of lines. A line is the row of an entry, with tabs between its columns and each
column in any spelling (`Riswhois.IsRow`), or it says nothing (`Riswhois.IsNoise`): it is blank or a
comment, it has too few columns or a set for its origin, or its prefix has host bits set. What the
reader makes of a line depends on its words, so that a row gives its entry (`Riswhois.readLine_row`)
and noise gives none (`Riswhois.readLine_noise`).

Only host bits are noticed after the origin has been read. A line that has them may therefore be cut
in its origin, and then nothing at all is read. Every other dump is read as the entries that its
lines say, in their order (`Riswhois.read_dump`).
-/

namespace RpkiAuthority.Riswhois

open Text Reading Address

/-! ### Lines -/

/-- **A row**: the columns of an entry in any spelling, with tabs between them. -/
inductive IsRow (e : RisEntry) : String → Prop where
  | mk {origin pfx : String} (horigin : e.origin.Spelling origin) (hpfx : e.pfx.Spelling pfx) :
    IsRow e (origin ++ "\t" ++ pfx ++ "\t" ++ e.visibility.repr)

/-- **Host bits are set** in the second column of a line: it is an address and a length, and the
address has bits beyond the length. -/
def HasHostBits (line : List Char) : Prop :=
  ∃ origin pfx peers more addr len, words line = origin :: pfx :: peers :: more ∧
    Prefix.readParts (if pfx.contains ':' then .ipv6 else .ipv4) pfx = some (addr, len) ∧
      addr % blockSize len ≠ 0

/-- **A line without an entry.** -/
inductive IsNoise (line : List Char) : Prop where
  | blank (h : ∀ c ∈ line, isBlank c = true)
  /-- Blanks may stand before the percent sign. -/
  | comment (h : (trimmed line).head? = some '%')
  /-- The origin is a set of AS numbers in braces. -/
  | set {origin : List Char} {more : List (List Char)} (h : words line = origin :: more)
    (hbrace : '\x7b' ∈ origin)
  | short (h : (words line).length < 3)
  | hostBits (h : HasHostBits line)

/-- **What a line carries**: an entry or nothing. -/
inductive Carries : String → Option RisEntry → Prop where
  | row {e : RisEntry} {content : String} (h : IsRow e content) : Carries content (some e)
  | noise {content : String} (h : IsNoise content.toList) (hfeed : '\n' ∉ content.toList) :
    Carries content none

/-- A line of a dump, with its ending and what it carries. -/
structure Line where
  content : String
  ending : String
  carried : Option RisEntry
  carries : Carries content carried
  ends : ending = "\n" ∨ ending = "\r\n"

/-- The text of a dump. -/
def dump : List Line → String
  | [] => ""
  | l :: lines => l.content ++ l.ending ++ dump lines

/-! ### Reading a line -/

variable {e : RisEntry} {line line' : List Char} {content : String} {carried : Option RisEntry}

/-- White space around a line does not matter. -/
theorem readLine_congr (h : trimmed line = trimmed line') : readLine line = readLine line' := by
  rw [readLine, readLine, h]

theorem lineIsCut_congr (h : trimmed line = trimmed line') : LineIsCut line ↔ LineIsCut line' := by
  rw [← breaksOff_readLine_iff, ← breaksOff_readLine_iff, readLine_congr h]

theorem readLine_comment (h : (trimmed line).head? = some '%') : readLine line = .ok none := by
  rw [readLine, if_pos (.inr h)]

/-- Comments aside, a line is read by its words. -/
theorem readLine_of_words (h : (trimmed line).head? ≠ some '%') : readLine line =
    match words line with
    | origin :: pfx :: peers :: _ => readColumns origin pfx peers
    | _ => .ok none := by
  rw [readLine, ← words_trimmed line]
  split
  · next hskip =>
    rw [List.isEmpty_iff.mp (hskip.resolve_right h)]
    rfl
  · rfl

/-- Lines with fewer than three words give no entry. -/
theorem readLine_short (h : (words line).length < 3) : readLine line = .ok none := by
  by_cases hcomment : (trimmed line).head? = some '%'
  · exact readLine_comment hcomment
  · rw [readLine_of_words hcomment]
    rcases hwords : words line with _ | ⟨_, _ | ⟨_, _ | ⟨_, _⟩⟩⟩
    · rfl
    · rfl
    · rfl
    · rw [hwords, List.length_cons, List.length_cons, List.length_cons] at h
      omega

/-- If the columns of a line give no entry, the line gives none. -/
theorem eq_none_of_readLine_eq_ok {origin pfx peers : List Char} {more : List (List Char)}
    (hwords : words line = origin :: pfx :: peers :: more)
    (h : ∀ carried, readColumns origin pfx peers = .ok carried → carried = none)
    (hread : readLine line = .ok carried) : carried = none := by
  by_cases hcomment : (trimmed line).head? = some '%'
  · exact (Except.ok.inj ((readLine_comment hcomment).symm.trans hread)).symm
  · rw [readLine_of_words hcomment, hwords] at hread
    exact h carried hread

/-! ### Noise -/

/-- A prefix with host bits set is not read. -/
theorem readExact_eq_none {pfx : List Char} {addr len : Nat}
    (hparts : Prefix.readParts (if pfx.contains ':' then .ipv6 else .ipv4) pfx = some (addr, len))
    (hbits : addr % blockSize len ≠ 0) : Prefix.readExact pfx = none := by
  rw [Prefix.readExact, hparts]
  simp only [Option.bind_eq_bind, Option.bind_some]
  rw [if_neg]
  intro heq
  obtain ⟨-, -, -, -, -, -, hlen⟩ := Prefix.readParts_eq_some_iff.mp hparts
  have haligned := (Prefix.containing (if pfx.contains ':' then .ipv6 else .ipv4) addr len).aligned
  rw [heq, show (Prefix.containing _ addr len).len = len from Nat.min_eq_left hlen] at haligned
  exact hbits haligned

/-- An origin in braces, or a prefix that is not read, makes columns without an entry. -/
theorem readColumns_eq_none {origin pfx peers : List Char}
    (h : '\x7b' ∈ origin ∨ Prefix.readExact (trimmed pfx) = none)
    (hread : readColumns origin pfx peers = .ok carried) : carried = none := by
  rw [readColumns] at hread
  split at hread
  · exact (Except.ok.inj hread).symm
  · next hbrace =>
    rw [List.contains_iff_mem] at hbrace
    rw [h.resolve_left hbrace] at hread
    split at hread
    · cases hread
    · exact (Except.ok.inj hread).symm
    · exact (Except.ok.inj hread).symm

/-- **Noise gives no entry** where it is read. -/
theorem readLine_noise (h : IsNoise line) (hread : readLine line = .ok carried) :
    carried = none := by
  cases h with
  | blank hblank =>
    have hshort : (words line).length < 3 := by
      rw [words_eq_nil hblank]
      decide
    exact (Except.ok.inj ((readLine_short hshort).symm.trans hread)).symm
  | comment hcomment => exact (Except.ok.inj ((readLine_comment hcomment).symm.trans hread)).symm
  | short hshort => exact (Except.ok.inj ((readLine_short hshort).symm.trans hread)).symm
  | @set origin more hwords hbrace =>
    by_cases hshort : (words line).length < 3
    · exact (Except.ok.inj ((readLine_short hshort).symm.trans hread)).symm
    · rcases more with _ | ⟨pfx, _ | ⟨peers, more⟩⟩
      · exact absurd (hwords ▸ by simp) hshort
      · exact absurd (hwords ▸ by simp) hshort
      · exact eq_none_of_readLine_eq_ok hwords (fun _ => readColumns_eq_none (.inl hbrace)) hread
  | hostBits hbits =>
    obtain ⟨origin, pfx, peers, more, addr, len, hwords, hparts, hbits⟩ := hbits
    have hpfx : Prefix.readExact (trimmed pfx) = none := by
      have hmem : pfx ∈ words line := hwords ▸ by simp
      rw [trimmed_eq_self fun c hc => (mem_words hmem hc).2]
      exact readExact_eq_none hparts hbits
    exact eq_none_of_readLine_eq_ok hwords (fun _ => readColumns_eq_none (.inr hpfx)) hread

/-! ### Rows -/

/-- The columns of a row are read back. -/
theorem readColumns_row {origin pfx : String} (horigin : e.origin.Spelling origin)
    (hpfx : e.pfx.Spelling pfx) :
    readColumns origin.toList pfx.toList e.visibility.repr.toList = .ok (some e) := by
  have hbrace : ¬origin.toList.contains '\x7b' = true := by
    rw [List.contains_iff_mem]
    exact fun h => absurd (horigin.isAlphanum h) (by decide)
  have htrimmed : trimmed origin.toList = origin.toList :=
    trimmed_eq_self fun c hc => isBlank_of_isAlphanum (horigin.isAlphanum hc)
  have htrimmed' : trimmed pfx.toList = pfx.toList := trimmed_eq_self fun c => hpfx.isBlank_eq_false
  have hvisibility : readNat max32 e.visibility.repr.toList = some e.visibility :=
    readNat_repr e.visibility_le
  have hentry : RisEntry.make? e.origin e.pfx e.visibility = some e := dif_pos e.visibility_le
  rw [readColumns, if_neg hbrace, htrimmed, horigin.read, htrimmed', hpfx.readExact, hvisibility]
  exact congrArg Except.ok hentry

theorem toList_row (origin pfx peers : String) : (origin ++ "\t" ++ pfx ++ "\t" ++ peers).toList =
    origin.toList ++ '\t' :: (pfx.toList ++ '\t' :: peers.toList) := by
  simp

/-- The words of a row are its columns. -/
theorem words_row {origin pfx : String} (horigin : e.origin.Spelling origin)
    (hpfx : e.pfx.Spelling pfx) :
    words (origin ++ "\t" ++ pfx ++ "\t" ++ e.visibility.repr).toList =
      [origin.toList, pfx.toList, e.visibility.repr.toList] := by
  have hvisibility : e.visibility.repr.toList ≠ [] :=
    Nat.toList_repr ▸ Nat.toDigits_ne_nil
  rw [toList_row, words_append (by decide), words_append (by decide),
    words_eq_singleton horigin.ne_nil fun c hc => isBlank_of_isAlphanum (horigin.isAlphanum hc),
    words_eq_singleton hpfx.ne_nil fun c => hpfx.isBlank_eq_false,
    words_eq_singleton hvisibility fun c hc => isBlank_of_isAlphanum (isAlphanum_of_mem_repr hc)]
  rfl

/-- **A row gives its entry.** -/
theorem readLine_row (h : IsRow e content) : readLine content.toList = .ok (some e) := by
  cases h with
  | @mk origin pfx horigin hpfx =>
    -- a row starts with its origin, and so with no percent sign
    have hcomment : (trimmed (origin ++ "\t" ++ pfx ++ "\t" ++ e.visibility.repr).toList).head? ≠
        some '%' := by
      obtain ⟨c, more, hcons⟩ := List.exists_cons_of_ne_nil horigin.ne_nil
      have hc : c.isAlphanum = true := horigin.isAlphanum (hcons ▸ List.mem_cons_self)
      obtain ⟨rest, hrest⟩ := exists_trimmed_cons (isBlank_of_isAlphanum hc)
        (more ++ '\t' :: (pfx.toList ++ '\t' :: e.visibility.repr.toList))
      rw [toList_row, hcons, List.cons_append, hrest, List.head?_cons]
      intro heq
      exact absurd (Option.some.inj heq ▸ hc) (by decide)
    rw [readLine_of_words hcomment, words_row horigin hpfx]
    exact readColumns_row horigin hpfx

/-- A row is one line. -/
theorem lineFeed_not_mem_row (h : IsRow e content) : '\n' ∉ content.toList := by
  cases h with
  | @mk origin pfx horigin hpfx =>
    have hblank : isBlank '\n' = true := by decide
    rw [toList_row]
    simp only [List.mem_append, List.mem_cons, not_or]
    refine ⟨fun h => ?_, by decide, fun h => ?_, by decide, fun h => ?_⟩
    · exact absurd (horigin.isAlphanum h) (by decide)
    · exact absurd (hpfx.isBlank_eq_false h) (by decide)
    · exact absurd (isAlphanum_of_mem_repr h) (by decide)

/-! ### Dumps -/

theorem Carries.lineFeed_not_mem (h : Carries content carried) : '\n' ∉ content.toList := by
  cases h with
  | row h => exact lineFeed_not_mem_row h
  | noise _ hfeed => exact hfeed

/-- **A line is read as what it carries**, unless it is cut. -/
theorem Carries.readLine_eq (h : Carries content carried) (hcut : ¬LineIsCut content.toList) :
    readLine content.toList = .ok carried := by
  cases h with
  | row h => exact readLine_row h
  | noise h =>
    cases hread : readLine content.toList with
    | error fault => exact absurd (readLine_eq_error_iff.mp hread).2 hcut
    | ok carried => rw [readLine_noise h hread]

/-- A line is cut only at a character of several bytes. -/
theorem exists_large_of_lineIsCut (h : LineIsCut line) : ∃ c ∈ line, 1 < c.utf8Size := by
  obtain ⟨-, origin, pfx, peers, more, hwords, -, hcut⟩ := h
  have hmem : origin ∈ words line := words_trimmed line ▸ hwords ▸ List.mem_cons_self
  rw [trimmed_eq_self fun c hc => (mem_words hmem hc).2] at hcut
  obtain ⟨c, hc, hlarge⟩ := hcut.exists_large
  exact ⟨c, (mem_words hmem hc).1, hlarge⟩

/-- Only a line with host bits set is cut. -/
theorem Carries.of_lineIsCut (h : Carries content carried) (hcut : LineIsCut content.toList) :
    carried = none ∧ HasHostBits content.toList := by
  have hread : readLine content.toList = .error .aborted := readLine_eq_error_iff.mpr ⟨rfl, hcut⟩
  have hshort : ¬(words content.toList).length < 3 := fun hshort =>
    nomatch (readLine_short hshort).symm.trans hread
  cases h with
  | row h => exact nomatch (readLine_row h).symm.trans hread
  | noise h =>
    refine ⟨rfl, ?_⟩
    cases h with
    | blank hblank =>
      rw [words_eq_nil hblank] at hshort
      exact absurd (by decide) hshort
    | comment hcomment => exact absurd hcomment hcut.1
    | short h => exact absurd h hshort
    | hostBits h => exact h
    | set hwords hbrace =>
      obtain ⟨-, origin, pfx, peers, more, hwords', hfree, -⟩ := hcut
      rw [words_trimmed, hwords] at hwords'
      exact absurd ((List.cons.inj hwords').1 ▸ hbrace) hfree

/-- The first piece of a dump is its first line, perhaps with white space behind it. -/
theorem piecesAt_dump (l : Line) (lines : List Line) : ∃ piece,
    piecesAt '\n' (dump (l :: lines)).toList = piece :: piecesAt '\n' (dump lines).toList ∧
      trimmed piece = trimmed l.content.toList := by
  have hfeed := l.carries.lineFeed_not_mem
  rcases l.ends with hends | hends
  · refine ⟨l.content.toList, ?_, rfl⟩
    have htext : (dump (l :: lines)).toList = l.content.toList ++ '\n' :: (dump lines).toList := by
      rw [dump, hends]
      simp
    rw [htext, piecesAt_append, piecesAt_eq_singleton hfeed]
    rfl
  · refine ⟨l.content.toList ++ ['\r'], ?_, trimmed_concat_of_isBlank (by decide)⟩
    have htext : (dump (l :: lines)).toList =
        l.content.toList ++ ['\r'] ++ '\n' :: (dump lines).toList := by
      rw [dump, hends]
      simp
    rw [htext, piecesAt_append, piecesAt_eq_singleton (by simpa using hfeed)]
    rfl

/-- Behind the last line stands a piece with nothing in it. -/
theorem mapM_readLine_dump {lines : List Line} (h : ∀ l ∈ lines, ¬LineIsCut l.content.toList) :
    (piecesAt '\n' (dump lines).toList).mapM readLine =
      .ok (lines.map Line.carried ++ [none]) := by
  induction lines with
  | nil => rfl
  | cons l lines ih =>
    obtain ⟨hl, hmore⟩ := List.forall_mem_cons.mp h
    obtain ⟨piece, hpieces, htrimmed⟩ := piecesAt_dump l lines
    rw [hpieces, List.mapM_cons, readLine_congr htrimmed, l.carries.readLine_eq hl, ih hmore]
    rfl

theorem exists_lineIsCut_iff (lines : List Line) :
    (∃ piece ∈ piecesAt '\n' (dump lines).toList, LineIsCut piece) ↔
      ∃ l ∈ lines, LineIsCut l.content.toList := by
  induction lines with
  | nil =>
    have hread : ¬LineIsCut [] := fun hcut =>
      nomatch (readLine_eq_error_iff.mpr ⟨rfl, hcut⟩ : readLine [] = .error .aborted)
    exact iff_of_false (fun ⟨piece, hpiece, hcut⟩ => hread (List.mem_singleton.mp hpiece ▸ hcut))
      fun ⟨_, hl, _⟩ => absurd hl List.not_mem_nil
  | cons l lines ih =>
    obtain ⟨piece, hpieces, htrimmed⟩ := piecesAt_dump l lines
    rw [hpieces, List.exists_mem_cons_iff, List.exists_mem_cons_iff, ih, lineIsCut_congr htrimmed]

/-- **A dump is read as the entries of its lines**, in their order, unless a line is cut. Then
reading breaks off. Only a line that carries no entry is cut, with host bits set in its prefix and a
character of several bytes. -/
theorem read_dump (lines : List Line) :
    (read (dump lines) = .ok (lines.filterMap Line.carried) ↔
      ∀ l ∈ lines, ¬LineIsCut l.content.toList) ∧
    ((read (dump lines)).BreaksOff ↔ ∃ l ∈ lines, LineIsCut l.content.toList) ∧
    ∀ l ∈ lines, LineIsCut l.content.toList →
      l.carried = none ∧ HasHostBits l.content.toList ∧
        ∃ c ∈ l.content.toList, 1 < c.utf8Size := by
  have hbreaks : (read (dump lines)).BreaksOff ↔ ∃ l ∈ lines, LineIsCut l.content.toList :=
    breaksOff_read_iff.trans (exists_lineIsCut_iff lines)
  refine ⟨⟨fun hread l hl hcut => ?_, fun h => ?_⟩, hbreaks, fun l _ hcut => ?_⟩
  · have haborted := hbreaks.mpr ⟨l, hl, hcut⟩
    rw [hread] at haborted
    exact not_breaksOff_ok haborted
  · rw [read, mapM_readLine_dump h]
    have hentries :
        (lines.map Line.carried ++ [none]).filterMap id = lines.filterMap Line.carried := by
      rw [List.filterMap_append, List.filterMap_map]
      exact List.append_nil _
    exact congrArg Except.ok hentries
  · obtain ⟨hentry, hbits⟩ := l.carries.of_lineIsCut hcut
    exact ⟨hentry, hbits, exists_large_of_lineIsCut hcut⟩

/-- An IPv6 prefix in dotted form, between lines that carry nothing. -/
example : (read ("% RIS\n\n{3333,1103}\t193.0.0.0/21\t20\n6939\t::216.66.38.58/128\t1\r\n" ++
    "3333\t193.0.0.1/21\t20\n3333\t193.0.0.0/21\t20\n")).map (List.map RisEntry.text) =
      .ok ["::d842:263a/128 => AS6939 (1)", "193.0.0.0/21 => AS3333 (20)"] := by
  rfl

/-- **A line with host bits set spoils a dump** if its origin is cut: the euro sign has three
bytes. -/
theorem breaksOff_hostBits :
    ∃ l : Line, l.content = "€12\t10.0.0.1/8\t5" ∧ l.ending = "\n" ∧ l.carried = none ∧
      (read (dump [l])).BreaksOff ∧ read (dump [l]) ≠ .ok [] := by
  have hbits : HasHostBits "€12\t10.0.0.1/8\t5".toList :=
    ⟨"€12".toList, "10.0.0.1/8".toList, "5".toList, [], 0x0a000001 <<< 96, 8, by decide, by decide,
      by decide⟩
  let l : Line := ⟨_, "\n", none, .noise (.hostBits hbits) (by decide), .inl rfl⟩
  have hdump : dump [l] = "€12\t10.0.0.1/8\t5\n" := rfl
  have hbreaks : read "€12\t10.0.0.1/8\t5\n" = .error .aborted := by decide +kernel
  rw [← hdump] at hbreaks
  refine ⟨l, rfl, rfl, rfl, hbreaks, fun h => ?_⟩
  cases hbreaks.symm.trans h

end RpkiAuthority.Riswhois
