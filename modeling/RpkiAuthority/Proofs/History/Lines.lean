import RpkiAuthority.Proofs.Aspa.Notation
import RpkiAuthority.Proofs.Engine.Attempts
import RpkiAuthority.Proofs.Engine.Attributed
import RpkiAuthority.Proofs.Resource.RoundTrip

/-!
# The lines of a record

The descriptions of the events of a command are joined with line feeds, and what is listed again are
the lines that are not empty. Since every description is a sentence, which starts with a letter and
ends with a full stop, no line has parts of two of them: the lines are those of the descriptions,
one after the other (`Text.fullLines_join`). So there is one line for each event exactly if no
description has a line feed. All that is put into descriptions is free of it, except for the names
of keys, which may be any text (`AuthorityEvent.lineFeed_mem_text_iff`).

For executions this says that a record lists its events one to a line if and only if none of them is
about a key with a line feed in its name (`Engine.execute_lines`).
-/

namespace RpkiAuthority

/-! ### Lines of sentences -/

namespace Text

variable {a c : Char} {l x y : List Char}

/-- The lines that are not empty. -/
def fullLines (l : List Char) : List (List Char) := (lines l).filter fun line => !line.isEmpty

/-- **A sentence** starts with a character that ends no line, and ends with a full stop. -/
def IsSentence (l : List Char) : Prop :=
  ∃ a x, l = a :: (x ++ ['.']) ∧ a ≠ '\n' ∧ a ≠ '\r'

/-- A text without line feeds is one line. -/
theorem lines_eq_singleton (h : '\n' ∉ l) (hne : l ≠ []) : lines l = [l] := by
  rw [lines, piecesAt_eq_singleton h, lines_go_singleton hne]

/-- A sentence without line feeds is one line. -/
theorem IsSentence.fullLines_eq (hl : IsSentence l) (h : '\n' ∉ l) : fullLines l = [l] := by
  obtain ⟨a, x, rfl, -, -⟩ := hl
  rw [fullLines, lines_eq_singleton h (List.cons_ne_nil _ _)]
  rfl

/-- What ends with a full stop has a line that is not empty. -/
theorem exists_mem_fullLines (x : List Char) : ∃ line, line ∈ fullLines (x ++ ['.']) := by
  obtain ⟨first, last, hx⟩ := exists_piecesAt_concat (show '.' ≠ '\n' by decide) x
  have hne : last ++ ['.'] ≠ [] := List.append_ne_nil_of_right_ne_nil last (List.cons_ne_nil _ _)
  refine ⟨last ++ ['.'], List.mem_filter.mpr ⟨?_, by simp⟩⟩
  rw [lines, hx, lines_go_append first (List.cons_ne_nil _ _), lines_go_singleton hne]
  exact List.mem_append_right _ List.mem_cons_self

/-- A sentence is not cut at a line feed before its first character, nor behind its full stop. -/
theorem exists_of_sentence_eq (ha : a ≠ c) (hc : c ≠ '.') (h : a :: (x ++ ['.']) = l ++ c :: y) :
    ∃ l' y', l = a :: l' ∧ y = y' ++ ['.'] := by
  have hfirst : ∃ l', l = a :: l' := by
    cases l with
    | nil => exact absurd (List.cons.inj h).1 ha
    | cons b l' => exact ⟨l', by rw [(List.cons.inj h).1]⟩
  have hlast := congrArg List.getLast? h
  rw [← List.cons_append, List.getLast?_concat] at hlast
  obtain ⟨l', hl⟩ := hfirst
  rcases List.eq_nil_or_concat y with rfl | ⟨y', d, rfl⟩
  · rw [List.getLast?_concat] at hlast
    exact absurd (Option.some.inj hlast).symm hc
  · rw [List.concat_eq_append, ← List.cons_append, ← List.append_assoc,
      List.getLast?_concat] at hlast
    exact ⟨l', y', hl, by rw [List.concat_eq_append, ← Option.some.inj hlast]⟩

/-- What starts with anything but a carriage return does not become empty. -/
theorem dropCarriageReturn_cons_ne_nil (ha : a ≠ '\r') : dropCarriageReturn (a :: l) ≠ [] := by
  intro hnil
  rw [dropCarriageReturn] at hnil
  cases hdrop : dropEnding? ['\r'] (a :: l) with
  | none =>
    rw [hdrop] at hnil
    exact absurd hnil (List.cons_ne_nil _ _)
  | some r =>
    rw [hdrop, Option.getD_some] at hnil
    rw [dropEnding?_eq_some_iff, hnil] at hdrop
    exact ha (List.cons.inj hdrop).1

/-- **A sentence with a line feed is several lines.** The first one starts with the sentence, and
the last one ends with it. -/
theorem IsSentence.two_le_length (hl : IsSentence l) (h : '\n' ∈ l) :
    2 ≤ (fullLines l).length := by
  obtain ⟨a, x, rfl, hfeed, hreturn⟩ := hl
  obtain ⟨p, q, hpq, hp⟩ := List.eq_append_cons_of_mem h
  obtain ⟨p', q', rfl, rfl⟩ := exists_of_sentence_eq hfeed (by decide) hpq
  obtain ⟨line, hline⟩ := exists_mem_fullLines q'
  have hq : piecesAt '\n' (q' ++ ['.']) ≠ [] :=
    piecesAt_eq_splitOn '\n' _ ▸ List.splitOnP_ne_nil _ _
  have hfirst : dropCarriageReturn (a :: p') ≠ [] := dropCarriageReturn_cons_ne_nil hreturn
  have hlines : fullLines (a :: (x ++ ['.'])) =
      dropCarriageReturn (a :: p') :: fullLines (q' ++ ['.']) := by
    rw [hpq, fullLines, lines, piecesAt_append, piecesAt_eq_singleton hp, lines_go_append _ hq,
      List.map_singleton, List.singleton_append, List.filter_cons_of_pos (by simpa using hfirst)]
    rfl
  rw [hlines, List.length_cons]
  have hpos : 0 < (fullLines (q' ++ ['.'])).length := List.length_pos_of_mem hline
  omega

/-- **The lines of joined sentences** are those of each of them. -/
theorem fullLines_join {texts : List String} (h : ∀ t ∈ texts, IsSentence t.toList) :
    fullLines (join "\n" texts).toList = texts.flatMap fun t => fullLines t.toList := by
  rw [fullLines, lines_join_of_ends (show '.' ≠ '\n' by decide) (by decide), List.filter_flatMap]
  · rfl
  · intro t ht
    obtain ⟨a, x, hx, -, -⟩ := h t ht
    exact ⟨a :: x, hx⟩

end Text

/-! ### Descriptions of events -/

namespace AuthorityEvent

open Text

/-- The name of the key that an event is about. -/
def key? : AuthorityEvent → Option String
  | incomingCertificateUpdated _ key _ | incomingCertificateRevoked _ key => some key
  | ignoredRoutesRemoved _ _ | aspaEntriesRemoved _ _ => none

/-- Whether an event has a description of one line: if it is about a key then there is no line feed
in its name. -/
def IsOneLine (e : AuthorityEvent) : Prop := ∀ key ∈ e.key?, '\n' ∉ key.toList

instance (e : AuthorityEvent) : Decidable e.IsOneLine :=
  inferInstanceAs (Decidable (∀ key ∈ e.key?, _))

/-- The lines of the description that are not empty. -/
def lines (e : AuthorityEvent) : List String := (fullLines e.text.toList).map String.ofList

/-- Joined texts have line feeds only where one of them has. -/
theorem lineFeed_not_mem_join {sep : String} {texts : List String} (hsep : '\n' ∉ sep.toList)
    (h : ∀ t ∈ texts, '\n' ∉ t.toList) : '\n' ∉ (join sep texts).toList := by
  intro hmem
  rw [toList_join] at hmem
  rcases mem_intercalate hmem with hmem | ⟨t, ht, hmem⟩
  · exact hsep hmem
  · obtain ⟨u, hu, rfl⟩ := List.mem_map.mp ht
    exact h u hu hmem

theorem lineFeed_not_mem_route (r : AnnouncedRoute) : '\n' ∉ r.text.toList := by
  have hasn : '\n' ∉ r.asn.text.toList := fun h =>
    absurd (Asn.isAlphanum_of_mem_text h) (by decide)
  have hpfx : '\n' ∉ r.pfx.text.toList := fun h =>
    absurd (r.pfx.spelling_text.isSign h) (by decide)
  have hsigns : '\n' ∉ "[asn=".toList ∧ '\n' ∉ ", prefix=".toList ∧ '\n' ∉ "]".toList := by simp
  rw [AnnouncedRoute.text]
  simp only [String.toList_append, List.mem_append, hasn, hpfx, hsigns, or_self, not_false_eq_true]

/-- **How descriptions are made up**: a beginning without line feeds, something in the middle, and a
full stop. In the middle there are line feeds only if there are some in the name of a key. -/
theorem exists_text_eq (e : AuthorityEvent) :
    ∃ start middle : String, e.text = start ++ middle ++ "." ∧ start.toList ≠ [] ∧
      '\n' ∉ start.toList ∧ '\r' ∉ start.toList ∧ ('\n' ∈ middle.toList ↔ ¬e.IsOneLine) := by
  cases e with
  | incomingCertificateUpdated authority key resources =>
    have hresources : '\n' ∉ resources.text.toList := fun h =>
      absurd (ResourceSet.isEscaped_of_mem_text resources _ h) (by decide)
    have hwith : '\n' ∉ " with resources ".toList := by simp
    refine ⟨"Updated incoming certificate for key ", key ++ (" with resources " ++ resources.text),
      ?_, by simp, by simp, by simp, ?_⟩
    · simp only [← String.append_assoc]
      rfl
    · simp only [String.toList_append, List.mem_append, hwith, hresources, IsOneLine, key?,
        Option.mem_some_iff, forall_eq', not_not, or_self, or_false]
  | incomingCertificateRevoked authority key =>
    refine ⟨"Revoked incoming certificate for key ", key, rfl, by simp, by simp, by simp, ?_⟩
    simp only [IsOneLine, key?, Option.mem_some_iff, forall_eq', not_not]
  | ignoredRoutesRemoved authority removed =>
    refine ⟨"Updated suppressed routes for ROA alerts due to changed resources, deletions: ", _,
      rfl, by simp, by simp, by simp, iff_of_false ?_ (not_not.mpr nofun)⟩
    split
    · simp
    · exact lineFeed_not_mem_join (by decide)
        (List.forall_mem_map.mpr fun r _ => lineFeed_not_mem_route r)
  | aspaEntriesRemoved authority removed =>
    refine ⟨"Updated ASPA configuration due to changed resources, removed customer ASNs: ", _, rfl,
      by simp, by simp, by simp, iff_of_false ?_ (not_not.mpr nofun)⟩
    exact lineFeed_not_mem_join (by decide) <| List.forall_mem_map.mpr fun e _ =>
      (AspaEntry.isLine_text ⟨e.1, e.2.toList⟩).2.1

/-- **The only line feeds in a description** are those in the name of a key. -/
theorem lineFeed_mem_text_iff (e : AuthorityEvent) : '\n' ∈ e.text.toList ↔ ¬e.IsOneLine := by
  obtain ⟨start, middle, htext, -, hstart, -, hmiddle⟩ := e.exists_text_eq
  have hstop : '\n' ∉ ".".toList := by simp
  rw [htext, ← hmiddle]
  simp only [String.toList_append, List.mem_append, hstart, hstop, false_or, or_false]

/-- **Every description is a sentence.** -/
theorem isSentence_text (e : AuthorityEvent) : IsSentence e.text.toList := by
  obtain ⟨start, middle, htext, hne, hfeed, hreturn, -⟩ := e.exists_text_eq
  obtain ⟨a, x, hx⟩ := List.exists_cons_of_ne_nil hne
  refine ⟨a, x ++ middle.toList, ?_, ?_, ?_⟩
  · rw [htext, String.toList_append, String.toList_append, hx]
    rfl
  · rintro rfl
    exact hfeed (hx ▸ List.mem_cons_self)
  · rintro rfl
    exact hreturn (hx ▸ List.mem_cons_self)

/-- A description without line feeds is one line. -/
theorem IsOneLine.lines_eq {e : AuthorityEvent} (h : e.IsOneLine) : e.lines = [e.text] := by
  have hfeed : '\n' ∉ e.text.toList := fun hmem => e.lineFeed_mem_text_iff.mp hmem h
  rw [lines, e.isSentence_text.fullLines_eq hfeed, List.map_singleton, String.ofList_toList]

/-- **Every event has a line, and more if there is a line feed in the name of a key.** -/
theorem length_lines (e : AuthorityEvent) :
    1 ≤ e.lines.length ∧ (¬e.IsOneLine → 2 ≤ e.lines.length) := by
  have htwo : ¬e.IsOneLine → 2 ≤ e.lines.length := by
    intro h
    rw [lines, List.length_map]
    exact e.isSentence_text.two_le_length (e.lineFeed_mem_text_iff.mpr h)
  refine ⟨?_, htwo⟩
  by_cases h : e.IsOneLine
  · rw [h.lines_eq]
    exact Nat.le_refl 1
  · exact Nat.le_of_succ_le (htwo h)

/-- **The lines of several events are as many as the events** just if none of them has more. The
induction is on the events, of which each has a line at least. -/
theorem length_flatMap_lines (events : List AuthorityEvent) :
    events.length ≤ (events.flatMap lines).length ∧
      ((events.flatMap lines).length = events.length ↔ ∀ e ∈ events, e.IsOneLine) := by
  induction events with
  | nil => exact ⟨Nat.le_refl 0, iff_of_true rfl (List.forall_mem_nil _)⟩
  | cons e events ih =>
    obtain ⟨hle, hiff⟩ := ih
    obtain ⟨hone, htwo⟩ := e.length_lines
    rw [List.flatMap_cons, List.length_append, List.length_cons, List.forall_mem_cons, ← hiff]
    refine ⟨by omega, ?_⟩
    by_cases h : e.IsOneLine
    · have hlength : e.lines.length = 1 := by rw [h.lines_eq, List.length_singleton]
      rw [hlength]
      exact ⟨fun hsame => ⟨h, by omega⟩, fun ⟨_, hsame⟩ => by omega⟩
    · have hlength := htwo h
      exact ⟨fun hsame => by omega, fun ⟨hsame, _⟩ => absurd hsame h⟩

/-- The lines are the descriptions just if they are as many. -/
theorem flatMap_lines_eq_iff (events : List AuthorityEvent) :
    events.flatMap lines = events.map text ↔ ∀ e ∈ events, e.IsOneLine := by
  constructor
  · intro h
    refine (length_flatMap_lines events).2.mp ?_
    rw [h, List.length_map]
  · intro h
    rw [List.map_eq_flatMap]
    exact List.flatMap_congr fun e he => (h e he).lines_eq

end AuthorityEvent

/-! ### Records -/

/-- **What a record lists** of a command and its events: the lines of all descriptions, which are
the descriptions, and as many as there are events, just if each of them has one line. -/
structure CommandRecord.Lists (told : Command × List AuthorityEvent) (r : CommandRecord) :
    Prop where
  written : ∃ n now authority, r = AuditLog.recordOf n now authority told.1
    (told.2.map AuthorityEvent.text)
  lines : r.eventLines = told.2.flatMap AuthorityEvent.lines
  eq_iff : r.eventLines = told.2.map AuthorityEvent.text ↔ ∀ e ∈ told.2, e.IsOneLine
  length_iff : r.eventLines.length = told.2.length ↔ ∀ e ∈ told.2, e.IsOneLine

/-- The lines of a new record. -/
theorem AuditLog.eventLines_recordOf (n : Nat) (now : Timestamp) (authority : VersionedId)
    (c : Command) (events : List AuthorityEvent) :
    (recordOf n now authority c (events.map AuthorityEvent.text)).eventLines =
      events.flatMap AuthorityEvent.lines := by
  have hlines : (recordOf n now authority c (events.map AuthorityEvent.text)).eventLines =
      (Text.fullLines (Text.join "\n" (events.map AuthorityEvent.text)).toList).map
        String.ofList := rfl
  rw [hlines, Text.fullLines_join (List.forall_mem_map.mpr fun e _ => e.isSentence_text),
    List.flatMap_map, List.map_flatMap]
  rfl

theorem AuditLog.lists_recordOf (n : Nat) (now : Timestamp) (authority : VersionedId)
    (told : Command × List AuthorityEvent) :
    CommandRecord.Lists told
      (recordOf n now authority told.1 (told.2.map AuthorityEvent.text)) := by
  have hlines := eventLines_recordOf n now authority told.1 told.2
  refine ⟨⟨n, now, authority, rfl⟩, hlines, ?_, ?_⟩
  · rw [hlines]
    exact AuthorityEvent.flatMap_lines_eq_iff told.2
  · rw [hlines]
    exact (AuthorityEvent.length_flatMap_lines told.2).2

/-! ### Executions -/

namespace Engine

open World

variable {X : Interface} {S : Type} {outside : Outside X S} {e : Engine X} {levels : Nat}
  {c : Command} {status : CommandStatus} {w w' : World S}

/-- **What the records of an execution list.** For any handlers and listeners, and every command
that does not fail, the records added to the audit log are those of the story of the command, one
for each command that had an effect and was sent by a user or led to events. Each lists the lines of
the descriptions of its events, in order. These are the descriptions themselves, and as many as
there are events, if and only if none of the events is about a key with a line feed in its name. -/
theorem execute_lines (h : World.execute outside e levels c w = some (.ok status, w')) :
    ∃ (u : World S) (state : RunState X) (x : World S),
      runAlone outside (((e.nesting levels).run c).run
        (RunState.new u.store.begin.1 (contextOf c))) { u with store := u.store.begin.2 } =
          some ((.ok status, state), x) ∧
      ∃ added,
        w'.audit.records = (state.deletions.foldl (fun audit id => (audit.delete x.now id).2)
          x.audit).records ++ added ∧
        List.Forall₂ CommandRecord.Lists
          ((teller outside e levels).run c (RunState.new u.store.begin.1 (contextOf c))
            { u with store := u.store.begin.2 }).recorded added := by
  obtain ⟨u, v, hattempt, hcommitted⟩ := exists_attempt_of_execute h
  obtain ⟨state, x, v', hrun, hcommit, hsame⟩ := attempt_commits hattempt
  obtain ⟨-, haudit⟩ := Prod.mk.inj (hcommitted.trans hsame)
  obtain ⟨versions, -, hwritten⟩ := audit_of_commit hcommit
  obtain ⟨added, hadded, hrecords⟩ := foldl_addRecord x.now versions state.records
    (state.deletions.foldl (fun audit id => (audit.delete x.now id).2) x.audit)
  refine ⟨u, state, x, hrun, added, by rw [haudit, hwritten, hadded], ?_⟩
  have htold : state.records.map (fun r => (r.command, r.events)) =
      (((teller outside e levels).run c (RunState.new u.store.begin.1 (contextOf c))
        { u with store := u.store.begin.2 }).recorded).map
          fun p => (p.1, p.2.map AuthorityEvent.text) :=
    ((truthful_nesting outside e levels).run hrun).records
  -- what is written of a record depends on its command and the descriptions of its events alone
  have hall : List.Forall₂ (fun (p : Command × List String) record =>
      ∃ n authority, record = AuditLog.recordOf n x.now authority p.1 p.2)
      (state.records.map fun r => (r.command, r.events)) added := by
    rw [List.forall₂_map_left_iff]
    exact hrecords.imp fun r record ⟨n, hrecord⟩ => ⟨n, _, hrecord⟩
  rw [htold, List.forall₂_map_left_iff] at hall
  refine hall.imp ?_
  rintro told record ⟨n, authority, rfl⟩
  exact AuditLog.lists_recordOf n x.now authority told

/-- The record of the command inside lists its event, and the one of the command around it lists the
other two, each on a line. -/
theorem execute_lines_nested :
    ∃ status w',
      World.execute Script.answer nested 3 around withAuthority = some (.ok status, w') ∧
      w'.audit.records.map CommandRecord.eventLines =
        [["Revoked incoming certificate for key inside."],
          ["Revoked incoming certificate for key first.",
            "Revoked incoming certificate for key last."]] ∧
      ∃ (u : World ScriptState) (state : RunState scriptInterface) (x : World ScriptState)
        (added : List CommandRecord),
        w'.audit.records = (state.deletions.foldl (fun audit id => (audit.delete x.now id).2)
          x.audit).records ++ added ∧
        List.Forall₂ CommandRecord.Lists
          ((teller Script.answer nested 3).run around
            (RunState.new u.store.begin.1 (contextOf around))
            { u with store := u.store.begin.2 }).recorded added := by
  have hcompute : ((World.execute Script.answer nested 3 around withAuthority).map fun p =>
      (p.1.isOk, p.2.audit.records.map CommandRecord.eventLines)) =
        some (true, [["Revoked incoming certificate for key inside."],
          ["Revoked incoming certificate for key first.",
            "Revoked incoming certificate for key last."]]) := by
    decide +kernel
  obtain ⟨⟨r, w'⟩, h, hfound⟩ := Option.map_eq_some_iff.mp hcompute
  obtain ⟨hok, hlines⟩ := Prod.mk.inj hfound
  cases r with
  | error err => exact absurd hok (by simp [Except.isOk, Except.toBool])
  | ok status =>
    obtain ⟨u, state, x, -, added, hadded, hlists⟩ := execute_lines h
    exact ⟨status, w', h, hlines, u, state, x, added, hadded, hlists⟩

/-! ### A key that makes one event look like two -/

/-- Stores a certificate for a key with a line feed in its name. -/
def storingForKey : Command :=
  ⟨⟨1, 0⟩, .system, .updateIncomingCertificate "a\nb" ⟨[⟨1, 1⟩], [], []⟩⟩

/-- **A record need not list one line for each event.** With the handlers and listeners of this
library the command has one event, and its record lists two lines. -/
theorem not_one_line_for_each_event :
    ((teller Script.answer (standard .standard) 2).run storingForKey
      (RunState.new withAuthority.store.begin.1 (contextOf storingForKey))
      { withAuthority with store := withAuthority.store.begin.2 }).recorded =
        [(storingForKey,
          [.incomingCertificateUpdated ⟨1, 1⟩ "a\nb" ⟨[⟨1, 1⟩], [], []⟩])] ∧
    ∃ w' r,
      World.execute Script.answer (standard .standard) 2 storingForKey withAuthority =
        some (.ok ⟨true, ⟨1, 1⟩⟩, w') ∧
      w'.audit.records = [r] ∧
      r.eventLines = ["Updated incoming certificate for key a", "b with resources AS1."] := by
  refine ⟨by decide +kernel, ?_⟩
  have hcompute : ((World.execute Script.answer (standard .standard) 2 storingForKey
      withAuthority).map fun p =>
        (p.1.toOption, p.2.audit.records.map CommandRecord.eventLines)) =
          some (some ⟨true, ⟨1, 1⟩⟩,
            [["Updated incoming certificate for key a", "b with resources AS1."]]) := by
    decide +kernel
  obtain ⟨⟨result, w'⟩, h, hfound⟩ := Option.map_eq_some_iff.mp hcompute
  obtain ⟨hstatus, hlines⟩ := Prod.mk.inj hfound
  obtain ⟨r, rest, hrecords, hr, hrest⟩ := List.map_eq_cons_iff.mp hlines
  obtain rfl := List.map_eq_nil_iff.mp hrest
  cases result with
  | error err => exact absurd hstatus nofun
  | ok status =>
    obtain rfl := Option.some.inj hstatus
    exact ⟨w', r, h, hrecords, hr⟩

end Engine

end RpkiAuthority
