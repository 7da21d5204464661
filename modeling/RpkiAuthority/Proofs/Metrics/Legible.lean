import RpkiAuthority.Proofs.Metrics.Exposition

/-!
# Which samples are legible

Samples are written with their label values as they stand between the quotes. The format wants a
backslash before some characters there. So a text of samples is read as the samples that were
written just if no label value has such a character (`Sample.legible_iff_plain`). With a quote in
it, a value may end early and go on as a label of its own (`Sample.not_legible`).

In one direction that is a round trip: plain values are written as their escaped forms, and text
with escaped values is read whatever they are (`Sample.readEntries_escaped`). In the other one the
text is followed from label to label and from sample to sample. As long as all was read as it was
written, the next value starts where it was written, and it is read as it stands only if it is plain
(`Sample.plain_of_readLabels`, `Sample.plain_of_readEntries`).
-/

namespace RpkiAuthority

open Exposition

/-- A sample of a metric that has several. -/
structure Sample where
  metric : Metric
  suffix : String
  labels : List (String × String)
  value : String
  deriving DecidableEq, Repr

namespace Sample

/-- The name with which the sample is written. -/
def name (s : Sample) : String := s.metric.fullName ++ s.suffix

/-- The line of the sample. -/
def line (s : Sample) : String := s.metric.sample s.suffix s.labels s.value

/-- The text of several samples. -/
def textOf : List Sample → String
  | [] => ""
  | s :: l => s.line ++ "\n" ++ textOf l

/-- What there is to be read of the sample. -/
def entry (s : Sample) : Entry := ⟨s.name, s.labels, s.value, ""⟩

/-- A label with its value escaped. -/
def escapeLabel (l : String × String) : String × String := (l.1, String.ofList (escape l.2.toList))

/-- The sample with its label values escaped. -/
def escaped (s : Sample) : Sample := { s with labels := s.labels.map escapeLabel }

/-- The labels have names. -/
def Named (labels : List (String × String)) : Prop :=
  ∀ l ∈ labels, isName isLabelChar l.1.toList = true

instance (labels : List (String × String)) : Decidable (Named labels) :=
  inferInstanceAs (Decidable (∀ _ ∈ _, _))

/-- The names of the sample and of its labels are such, and its value is a number. Label values may
be any text. -/
def Proper (s : Sample) : Prop :=
  isName isMetricChar s.name.toList = true ∧ Named s.labels ∧ isToken s.value.toList = true

instance (s : Sample) : Decidable s.Proper := inferInstanceAs (Decidable (_ ∧ _ ∧ _))

/-- No label value has a character that would have to be escaped. -/
def IsPlain (s : Sample) : Prop := ∀ l ∈ s.labels, Exposition.IsPlain l.2.toList

instance (s : Sample) : Decidable s.IsPlain := inferInstanceAs (Decidable (∀ _ ∈ _, _))

variable {s : Sample} {labels : List (String × String)} {after rest : List Char}

/-! ### The text of a sample -/

/-- The text of a label. -/
def labelText (l : String × String) : String := l.1 ++ "=\"" ++ l.2 ++ "\""

/-- What follows a label in its section: the further labels and the closing brace. -/
def followText : List (String × String) → List Char → List Char
  | [], after => '\x7d' :: after
  | l :: more, after => ',' :: ' ' :: ((labelText l).toList ++ followText more after)

/-- The labels of a section, and what follows it. -/
def sectionText : List (String × String) → List Char → List Char
  | [], after => '\x7d' :: after
  | l :: more, after => (labelText l).toList ++ followText more after

theorem toList_labelText (l : String × String) (after : List Char) :
    (labelText l).toList ++ after = l.1.toList ++ '=' :: '"' :: (l.2.toList ++ '"' :: after) := by
  simp [labelText]

theorem toList_join_labelText (labels : List (String × String)) (after : List Char) :
    (Text.join ", " (labels.map labelText)).toList ++ '\x7d' :: after =
      sectionText labels after := by
  cases labels with
  | nil => rfl
  | cons l more =>
    induction more generalizing l with
    | nil => rfl
    | cons m more ih =>
      have hjoin : Text.join ", " ((l :: m :: more).map labelText) =
          labelText l ++ ", " ++ Text.join ", " ((m :: more).map labelText) := rfl
      have hcomma : ", ".toList = [',', ' '] := rfl
      rw [hjoin, String.toList_append, String.toList_append, List.append_assoc, List.append_assoc,
        ih, hcomma]
      rfl

theorem toList_line (s : Sample) (after : List Char) :
    (s.line ++ "\n").toList ++ after = s.name.toList ++ '\x7b' ::
      sectionText s.labels (' ' :: (s.value.toList ++ '\n' :: after)) := by
  have hline : s.line =
      s.name ++ "\x7b" ++ Text.join ", " (s.labels.map labelText) ++ "\x7d " ++ s.value := rfl
  rw [hline, ← toList_join_labelText]
  simp

/-! ### Labels -/

theorem Named.tail {l : String × String} (h : Named (l :: labels)) : Named labels :=
  fun m hm => h m (List.mem_cons_of_mem l hm)

theorem Named.escaped (h : Named labels) : Named (labels.map escapeLabel) := by
  intro l hl
  obtain ⟨m, hm, rfl⟩ := List.mem_map.mp hl
  exact h m hm

theorem skip_sectionText (h : Named labels) (after : List Char) :
    skip (sectionText labels after) = sectionText labels after := by
  cases labels with
  | nil => exact skip_cons (by decide) _
  | cons l more =>
    obtain ⟨c, t, hname, hc⟩ := exists_cons_of_isName (h l List.mem_cons_self)
    have hgap : isGap c = false :=
      (spec_of_isMetricChar (by rw [isMetricChar, hc, Bool.true_or])).1
    rw [sectionText, toList_labelText, hname]
    exact skip_cons hgap _

theorem skip_followText (labels : List (String × String)) (after : List Char) :
    skip (followText labels after) = followText labels after := by
  cases labels <;> exact skip_cons (by decide) _

/-- The blank after a comma is skipped. -/
theorem skip_blank_sectionText (h : Named labels) (after : List Char) :
    skip (' ' :: sectionText labels after) = sectionText labels after :=
  skip_sectionText h after

/-- **Labels with escaped values are read.** -/
theorem readLabels_escaped (h : Named labels) (after : List Char) :
    readLabels (sectionText (labels.map escapeLabel) after) = some (labels, after) := by
  induction labels with
  | nil => exact readLabels_nil after
  | cons l more ih =>
    have hfirst : readLabel (sectionText ((l :: more).map escapeLabel) after) =
        some (l, followText (more.map escapeLabel) after) := by
      rw [List.map_cons, sectionText, toList_labelText, escapeLabel,
        readLabel_append (h l List.mem_cons_self), String.toList_ofList, readQuoted_escape]
      simp only [Option.map_some, String.ofList_toList, skip_followText]
    cases more with
    | nil => exact readLabels_brace hfirst
    | cons m more =>
      have hrest := ih h.tail
      rw [← skip_blank_sectionText h.tail.escaped] at hrest
      refine (readLabels_comma hfirst).trans ?_
      exact congrArg (Option.map _) hrest

/-- **Labels that are read as they stand** have plain values. -/
theorem plain_of_readLabels (hn : Named labels)
    (h : readLabels (sectionText labels after) = some (labels, rest)) :
    (∀ l ∈ labels, Exposition.IsPlain l.2.toList) ∧ rest = after := by
  induction labels with
  | nil =>
    obtain ⟨-, rfl⟩ := Prod.mk.inj (Option.some.inj ((readLabels_nil after).symm.trans h))
    exact ⟨fun l hl => absurd hl List.not_mem_nil, rfl⟩
  | cons l more ih =>
    obtain ⟨l', hfirst, hlater⟩ := exists_of_readLabels h
    rw [sectionText, toList_labelText, readLabel_append (hn l List.mem_cons_self)] at hfirst
    obtain ⟨⟨v, r⟩, hquoted, heq⟩ := Option.map_eq_some_iff.mp hfirst
    obtain ⟨hlabel, rfl⟩ := Prod.mk.inj heq
    have hv : v = l.2.toList := by
      rw [← hlabel, String.toList_ofList]
    obtain ⟨hplain, rfl⟩ := isPlain_of_readQuoted (hv ▸ hquoted)
    rw [skip_followText] at hlater
    cases more with
    | nil =>
      rcases hlater with ⟨l'', hcomma, -⟩ | ⟨hbrace, -⟩
      · exact absurd (List.cons.inj hcomma).1 (by decide)
      · exact ⟨List.forall_mem_cons.mpr ⟨hplain, fun l hl => absurd hl List.not_mem_nil⟩,
          (List.cons.inj hbrace).2.symm⟩
    | cons m more =>
      rcases hlater with ⟨l'', hcomma, hmore⟩ | ⟨-, hnil⟩
      · have hblank : ' ' :: sectionText (m :: more) after = l'' := (List.cons.inj hcomma).2
        rw [← hblank, skip_blank_sectionText hn.tail] at hmore
        obtain ⟨hplains, hrest⟩ := ih hn.tail hmore
        exact ⟨List.forall_mem_cons.mpr ⟨hplain, hplains⟩, hrest⟩
      · exact nomatch hnil

/-! ### Samples -/

theorem readEntry_line (hs : s.Proper) (after : List Char) :
    readEntry ((s.line ++ "\n").toList ++ after) =
      (readLabels (sectionText s.labels (' ' :: (s.value.toList ++ '\n' :: after)))).bind
        fun (labels, rest) => readNumbers s.name labels rest := by
  rw [toList_line, readEntry_append hs.1, skip_sectionText hs.2.1]

/-- **A sample with escaped label values is read.** -/
theorem readEntry_escaped (hs : s.Proper) (after : List Char) :
    readEntry ((s.escaped.line ++ "\n").toList ++ after) = some (s.entry, after) := by
  have hescaped : s.escaped.Proper := ⟨hs.1, hs.2.1.escaped, hs.2.2⟩
  rw [readEntry_line hescaped]
  refine (congrArg (Option.bind · _) (readLabels_escaped hs.2.1 _)).trans ?_
  exact readNumbers_append hs.2.2 after

/-- **A sample that is read as it stands** has plain label values. -/
theorem plain_of_readEntry (hs : s.Proper)
    (h : readEntry ((s.line ++ "\n").toList ++ after) = some (s.entry, rest)) :
    s.IsPlain ∧ rest = after := by
  rw [readEntry_line hs] at h
  obtain ⟨⟨labels, r⟩, hlabels, hnumbers⟩ := Option.bind_eq_some_iff.mp h
  obtain rfl : s.labels = labels := labels_of_readNumbers hnumbers
  obtain ⟨hplain, rfl⟩ := plain_of_readLabels hs.2.1 hlabels
  have hread := (readNumbers_append hs.2.2 after).symm.trans hnumbers
  exact ⟨hplain, (Prod.mk.inj (Option.some.inj hread)).2.symm⟩

/-! ### Texts -/

theorem toList_textOf_cons (s : Sample) (l : List Sample) :
    (textOf (s :: l)).toList = (s.line ++ "\n").toList ++ (textOf l).toList :=
  String.toList_append

theorem readEntries_textOf_cons (hs : s.Proper) (l : List Sample) :
    readEntries (textOf (s :: l)).toList =
      (readEntry ((s.line ++ "\n").toList ++ (textOf l).toList)).bind fun (entry, rest) =>
        (readEntries rest).map (entry :: ·) := by
  obtain ⟨c, t, hname, hc⟩ := exists_cons_of_isName hs.1
  rw [toList_textOf_cons, toList_line, hname]
  exact readEntries_cons hc _

variable {l : List Sample}

/-- **A text with escaped label values is read.** -/
theorem readEntries_escaped (h : ∀ s ∈ l, s.Proper) :
    readEntries (textOf (l.map escaped)).toList = some (l.map entry) := by
  induction l with
  | nil =>
    rw [readEntries.eq_def]
    rfl
  | cons s l ih =>
    obtain ⟨hs, hl⟩ := List.forall_mem_cons.mp h
    have hescaped : s.escaped.Proper := ⟨hs.1, hs.2.1.escaped, hs.2.2⟩
    rw [List.map_cons, readEntries_textOf_cons hescaped, readEntry_escaped hs, Option.bind_some]
    exact congrArg (Option.map (s.entry :: ·)) (ih hl)

theorem escaped_of_isPlain (h : s.IsPlain) : s.escaped = s := by
  have hlabels : s.labels.map escapeLabel = s.labels := by
    refine (List.map_congr_left fun l hl => ?_).trans (List.map_id _)
    rw [escapeLabel, escape_of_isPlain (h l hl), String.ofList_toList]
    rfl
  rw [escaped, hlabels]

/-- A text with plain label values is read. -/
theorem readEntries_of_plain (h : ∀ s ∈ l, s.Proper) (hplain : ∀ s ∈ l, s.IsPlain) :
    readEntries (textOf l).toList = some (l.map entry) := by
  have hescaped : l.map escaped = l :=
    (List.map_congr_left fun s hs => escaped_of_isPlain (hplain s hs)).trans (List.map_id _)
  rw [← readEntries_escaped h, hescaped]

/-- **A text that is read as it stands** has plain label values. -/
theorem plain_of_readEntries (h : ∀ s ∈ l, s.Proper)
    (hread : readEntries (textOf l).toList = some (l.map entry)) : ∀ s ∈ l, s.IsPlain := by
  induction l with
  | nil => exact fun s hs => absurd hs List.not_mem_nil
  | cons s l ih =>
    obtain ⟨hs, hl⟩ := List.forall_mem_cons.mp h
    rw [readEntries_textOf_cons hs] at hread
    obtain ⟨⟨entry, rest⟩, hfirst, hmore⟩ := Option.bind_eq_some_iff.mp hread
    obtain ⟨entries, hentries, heq⟩ := Option.map_eq_some_iff.mp hmore
    obtain ⟨rfl, rfl⟩ := List.cons.inj heq
    obtain ⟨hplain, rfl⟩ := plain_of_readEntry hs hfirst
    exact List.forall_mem_cons.mpr ⟨hplain, ih hl hentries⟩

/-- **Which texts are legible.** A text of samples is read as the samples that were written just if
no label value has a backslash, a quote or a line feed in it; among such samples different ones have
different texts. With these characters escaped, every text would be read. -/
theorem legible_iff_plain (h : ∀ s ∈ l, s.Proper) :
    (readEntries (textOf l).toList = some (l.map entry) ↔ ∀ s ∈ l, s.IsPlain) ∧
    readEntries (textOf (l.map escaped)).toList = some (l.map entry) ∧
    ∀ l' : List Sample, (∀ s ∈ l', s.Proper) → (∀ s ∈ l, s.IsPlain) → (∀ s ∈ l', s.IsPlain) →
      textOf l = textOf l' → l.map entry = l'.map entry := by
  refine ⟨⟨plain_of_readEntries h, readEntries_of_plain h⟩, readEntries_escaped h, ?_⟩
  intro l' h' hplain hplain' htext
  have hread := readEntries_of_plain h hplain
  rw [htext, readEntries_of_plain h' hplain'] at hread
  exact (Option.some.inj hread).symm

/-- The samples of two outcomes are legible. -/
theorem legible_iff_plain_outcomes :
    ∃ l : List Sample, (∀ s ∈ l, s.Proper) ∧
      l.map line = ["rpkicore_command_outcomes_total\x7boutcome=\"success\"\x7d 3",
        "rpkicore_command_outcomes_total\x7boutcome=\"no_effect\"\x7d 1"] ∧
      readEntries (textOf l).toList = some (l.map entry) := by
  let m : Metric :=
    ⟨"command_outcomes_total", "number of executed commands by outcome", .counter⟩
  let l : List Sample := [⟨m, "", [("outcome", "success")], "3"⟩,
    ⟨m, "", [("outcome", "no_effect")], "1"⟩]
  have hproper : ∀ s ∈ l, s.Proper := by decide
  exact ⟨l, hproper, by decide, (legible_iff_plain hproper).1.mpr (by decide)⟩

/-- A quote in a label value ends it, and what follows may be another label. -/
theorem not_legible :
    ∃ l l' : List Sample, (∀ s ∈ l ++ l', s.Proper) ∧ l.map entry ≠ l'.map entry ∧
      textOf l = textOf l' ∧ readEntries (textOf l).toList ≠ some (l.map entry) := by
  let m : Metric := ⟨"m", "", .gauge⟩
  let l : List Sample := [⟨m, "", [("a", "1\", b=\"2")], "3"⟩]
  let l' : List Sample := [⟨m, "", [("a", "1"), ("b", "2")], "3"⟩]
  have hproper : ∀ s ∈ l ++ l', s.Proper := by decide
  have hquote : ¬∀ s ∈ l, s.IsPlain := by decide
  refine ⟨l, l', hproper, by decide, by decide, fun hread => hquote ?_⟩
  exact plain_of_readEntries (fun s hs => hproper s (List.mem_append_left l' hs)) hread

end Sample

end RpkiAuthority
