import RpkiAuthority.Proofs.Concurrent.Serial
import RpkiAuthority.Proofs.Engine.Renamed
import RpkiAuthority.Proofs.Runs.Recorded

/-!
# Authorities that are created again

When an authority is deleted its records are marked, and after that they are never found again. But
the command that deletes it is recorded afterwards, and this record is not marked. So of what was
there before one record is left (`World.Buried`), and it has the version that the authority had at
the end. When the authority is created again, versions start at zero, and the check for stale
commands compares versions of the new authority with that of the old one.

Two runs are compared here: one in which the authority was deleted before, and one about an
authority that never was there. As long as the commands that follow are the same, both authorities
are the same but for their names, and have the same records, apart from the one that is left over
(`World.Twins`). Every command is told the same in both runs, up to the first that is refused
because of the record that is left over (`World.recreated`). That there is such a command sometimes
is the one trace that the old authority leaves (`World.not_recreated_alike`).
-/

namespace RpkiAuthority

variable {X : Interface} {S : Type} {outside : Outside X S} {settings : Settings} {levels : Nat}

/-! ### Runs amid other worlds -/

namespace World

/-- **Runs keep what each end keeps.** -/
theorem executeEach_preserves {P : World S → Prop} {turns : List (World S × Command)}
    (hstep : ∀ t ∈ turns, ∀ ⦃w r w'⦄, P w → t.2.Outcome (w.amid t.1) r w' → P w')
    {w w' : World S} {results : List (Except CommandError CommandStatus)}
    (h : executeEach outside (Engine.standard settings) (levels + 2) turns w = some (results, w'))
    (hw : P w) : P w' := by
  induction turns generalizing w results with
  | nil =>
    obtain ⟨-, rfl⟩ := Prod.mk.inj (Option.some.inj h)
    exact hw
  | cons first rest ih =>
    obtain ⟨around, c⟩ := first
    obtain ⟨r, u, hu, ho⟩ := Engine.execute_outcome outside settings levels c (w.amid around)
    rw [executeEach, hu, Option.bind_some, Option.map_eq_some_iff] at h
    obtain ⟨⟨results', u'⟩, hrest, heq⟩ := h
    obtain ⟨-, rfl⟩ := Prod.mk.inj heq
    exact ih (fun t ht => hstep t (List.mem_cons_of_mem _ ht)) hrest
      (hstep _ List.mem_cons_self hw ho)

/-- What comes first in a run, and the rest: where no lock is held, the first command is told the
verdict on it. -/
theorem executeEach_cons {around w u : World S} {c : Command} {turns : List (World S × Command)}
    {results : List (Except CommandError CommandStatus)} (hfree : w.store.locks = OrdMap.empty)
    (h : executeEach outside (Engine.standard settings) (levels + 2) ((around, c) :: turns) w =
      some (results, u)) :
    ∃ v rest, v.committed = c.leaves (w.amid around) (c.ruling (w.amid around)) ∧
      v.store.locks = OrdMap.empty ∧ results = c.verdict (w.amid around) :: rest ∧
      executeEach outside (Engine.standard settings) (levels + 2) turns v = some (rest, u) := by
  obtain ⟨v, hv, hleaves, -, hlocks⟩ := Engine.execute_eq_verdict outside settings levels c
    (w := w.amid around) hfree
  rw [executeEach, hv, Option.bind_some, Option.map_eq_some_iff] at h
  obtain ⟨⟨rest, u'⟩, hrest, heq⟩ := h
  obtain ⟨rfl, rfl⟩ := Prod.mk.inj heq
  exact ⟨v, rest, hleaves, hlocks, rfl, hrest⟩

/-- **Every run comes to its end** where no lock is held at the start, and leaves none. -/
theorem executeEach_total (outside : Outside X S) (settings : Settings) (levels : Nat)
    (turns : List (World S × Command)) {w : World S} (hfree : w.store.locks = OrdMap.empty) :
    ∃ results w', executeEach outside (Engine.standard settings) (levels + 2) turns w =
      some (results, w') ∧ w'.store.locks = OrdMap.empty := by
  induction turns generalizing w with
  | nil => exact ⟨[], w, rfl, hfree⟩
  | cons first rest ih =>
    obtain ⟨around, c⟩ := first
    obtain ⟨u, hu, -, -, hlocks⟩ := Engine.execute_eq_verdict outside settings levels c
      (w := w.amid around) hfree
    obtain ⟨results, w', hrest, hlocks'⟩ := ih hlocks
    refine ⟨c.verdict (w.amid around) :: results, w', ?_, hlocks'⟩
    rw [executeEach, hu, Option.bind_some, hrest]
    rfl

end World

/-! ### What is left of an authority -/

/-- **All that is left** of authorities that are not there is the record of their deletion. -/
def World.Buried (w : World S) : Prop :=
  ∀ id, w.store.get? id = none → w.audit.current id = [] ∨
    ∃ r, w.audit.current id = [r] ∧ r.type = .deleteCertificateAuthority

/-- A command leaves no more of an authority that it deletes. -/
theorem Command.Outcome.buried {c : Command} {w w' : World S}
    {r : Except CommandError CommandStatus} (ho : c.Outcome w r w') (hw : w.Buried) :
    w'.Buried := by
  intro id hgone
  cases ho with
  | failed same | idle _ same =>
    rw [same.audit]
    exact hw id (same.get? id ▸ hgone)
  | @effective uuid change _ fresh allowed effect aggregates audit now =>
    by_cases hid : id = c.authority.id
    · subst hid
      have hnone : change.authority = none := by
        rw [Store.get?, aggregates, c.find?_writes_self] at hgone
        exact Option.map_eq_none_iff.mp hgone
      have htype : c.type = .deleteCertificateAuthority :=
        Command.type_of_authority_eq_none effect hnone
      have huser : c.group = .user := by rw [Command.group, htype]; rfl
      have hcurrent : w'.audit.current c.authority.id = [AuditLog.recordOf w.audit.nextId w.now
          ⟨c.authority.id, change.version (w.store.get? c.authority.id)⟩ c
          (change.events.map AuthorityEvent.text)] := by
        rw [audit, c.current_recordsIn, hnone, if_pos (Or.inl huser)]
        rfl
      exact Or.inr ⟨_, hcurrent, htype⟩
    · have hsame := (Command.Outcome.effective (w := w) fresh allowed effect aggregates audit
        now).sameAuthority hid
      rw [hsame.current]
      exact hw id (hsame.get?.symm.trans hgone)

/-! ### Twins -/

/-- **Two authorities are twins** in two worlds: they are the same but for their names, or neither
is there, and have the same records, but for some that are left over in the first world. -/
structure World.Twins (remains : List CommandRecord) (id id' : AggregateId) (w w' : World S) :
    Prop where
  authority : ∃ uuid, w'.store.get? id' = (w.store.get? id).map (·.called id' uuid)
  records : ∃ old since, (old = remains ∨ old = []) ∧ w.audit.current id = old ++ since ∧
    (w'.audit.current id').map CommandRecord.nameless = since.map CommandRecord.nameless

/-- **A refusal names** one of some records. -/
def CommandError.Names (records : List CommandRecord) : Except CommandError CommandStatus → Prop
  | .error (.concurrentModification _ _ _ conflicting) => ∃ r ∈ records, r ∈ conflicting
  | _ => False

/-- The records of users' commands that led to versions later than that of a command. -/
def Command.isUnknown (c : Command) (r : CommandRecord) : Bool :=
  decide (c.authority.version < r.authority.version) && r.group == .user

theorem Command.unknownRecords_eq (c : Command) (w : World S) :
    c.unknownRecords w = (w.audit.current c.authority.id).filter c.isUnknown := by
  rw [unknownRecords, AuditLog.since_eq, List.filter_filter]
  exact List.filter_congr fun r _ => Bool.and_comm _ _

/-- **A command is stale** where it does not know of a record, and is told so. -/
theorem Command.stale_eq {c : Command} {w : World S} (hgroup : c.group ≠ .system)
    {ca : CertificateAuthority} (hget : w.store.get? c.authority.id = some ca)
    (hlt : c.authority.version < ca.version) :
    c.stale w = if (c.unknownRecords w).isEmpty then none
      else some (.concurrentModification c.authority.id ca.version c.authority.version
        (c.unknownRecords w)) := by
  rw [stale, if_neg hgroup, hget]
  exact if_neg (Nat.not_le.mpr hlt)

/-- A command of the system is not stale, nor is one about an authority that is not there or not at
a later version. -/
theorem Command.stale_eq_none {c : Command} {w : World S}
    (h : c.group = .system ∨ ∀ ca ∈ w.store.get? c.authority.id, ca.version ≤ c.authority.version) :
    c.stale w = none := by
  rw [stale]
  by_cases hgroup : c.group = .system
  · exact if_pos hgroup
  · rw [if_neg hgroup]
    cases hget : w.store.get? c.authority.id with
    | none => rfl
    | some ca => exact if_pos (h.resolve_left hgroup ca hget)

namespace World.Twins

variable {remains : List CommandRecord} {id id' : AggregateId} {w w' u u' : World S} {c : Command}

/-- **A command is stale in both worlds or in none**, unless it is refused because of a record that
is left over. -/
theorem stale (h : Twins remains c.authority.id id' w w') :
    (∃ err, c.stale w = some err ∧ CommandError.Names remains (.error err)) ∨
      ((c.about id').stale w').map CommandError.nameless =
        (c.stale w).map CommandError.nameless := by
  obtain ⟨uuid, hauthority⟩ := h.authority
  obtain ⟨old, since, hold, hcurrent, hsince⟩ := h.records
  by_cases hold' : c.group ≠ .system ∧ ∃ ca, w.store.get? c.authority.id = some ca ∧
      c.authority.version < ca.version
  · obtain ⟨hgroup, ca, hget, hlt⟩ := hold'
    have hunknown : c.unknownRecords w = old.filter c.isUnknown ++ since.filter c.isUnknown := by
      rw [c.unknownRecords_eq, hcurrent, List.filter_append]
    have hunknown' : ((c.about id').unknownRecords w').map CommandRecord.nameless =
        (since.filter c.isUnknown).map CommandRecord.nameless := by
      have hfilter : ∀ records : List CommandRecord,
          (records.filter c.isUnknown).map CommandRecord.nameless =
            (records.map CommandRecord.nameless).filter c.isUnknown :=
        fun records => by rw [List.filter_map]; rfl
      rw [(c.about id').unknownRecords_eq, hfilter, ← hsince, ← hfilter]
      rfl
    have hget' : w'.store.get? (c.about id').authority.id = some (ca.called id' uuid) :=
      hauthority.trans (by rw [hget]; rfl)
    have hstale := Command.stale_eq hgroup hget hlt
    have hstale' := Command.stale_eq (c := c.about id') hgroup hget' hlt
    cases hleft : old.filter c.isUnknown with
    | nil =>
      right
      rw [hleft, List.nil_append] at hunknown
      rw [hstale, hstale', hunknown]
      have hempty : ((c.about id').unknownRecords w').isEmpty =
          (since.filter c.isUnknown).isEmpty := by
        rw [← List.isEmpty_map (f := CommandRecord.nameless), hunknown', List.isEmpty_map]
      rw [hempty]
      split
      · rfl
      · rw [Option.map_some, Option.map_some, CommandError.nameless, CommandError.nameless,
          hunknown']
        rfl
    | cons r rest =>
      left
      have hr : r ∈ old.filter c.isUnknown := hleft ▸ List.mem_cons_self
      have hmem : r ∈ c.unknownRecords w := hunknown ▸ List.mem_append_left _ hr
      have hremains : r ∈ remains := by
        rcases hold with rfl | rfl
        · exact (List.mem_filter.mp hr).1
        · exact absurd hr List.not_mem_nil
      rw [hstale, if_neg (by rw [List.isEmpty_iff]; exact List.ne_nil_of_mem hmem)]
      exact ⟨_, rfl, r, hremains, hmem⟩
  · right
    have hnone : c.group = .system ∨
        ∀ ca ∈ w.store.get? c.authority.id, ca.version ≤ c.authority.version := by
      by_cases hgroup : c.group = .system
      · exact Or.inl hgroup
      · exact Or.inr fun ca hca => Nat.le_of_not_lt fun hlt => hold' ⟨hgroup, ca, hca, hlt⟩
    have hnone' : (c.about id').group = .system ∨
        ∀ ca ∈ w'.store.get? (c.about id').authority.id, ca.version ≤ c.authority.version := by
      refine hnone.imp_right fun hall ca' hca' => ?_
      obtain ⟨ca, hca, rfl⟩ := Option.map_eq_some_iff.mp (hauthority.symm.trans hca')
      exact hall ca hca
    rw [Command.stale_eq_none hnone, Command.stale_eq_none hnone']

/-- **The same is to happen in both worlds**, unless the command is refused because of a record that
is left over. -/
theorem ruling (h : Twins remains c.authority.id id' w w') :
    CommandError.Names remains (c.verdict w) ∨
      SameRuling id' (c.ruling w) ((c.about id').ruling w') := by
  rcases h.stale with ⟨err, hstale, hnames⟩ | hsame
  · rw [Command.verdict_of_stale hstale]
    exact Or.inl hnames
  · right
    obtain ⟨uuid, hauthority⟩ := h.authority
    rw [Command.ruling, Command.ruling]
    cases hstale : c.stale w with
    | some err =>
      rw [hstale] at hsame
      obtain ⟨err', hstale', herr⟩ := Option.map_eq_some_iff.mp hsame
      rw [hstale']
      exact .refused herr
    | none =>
      rw [hstale] at hsame
      rw [Option.map_eq_none_iff.mp hsame]
      have hrefusal : (c.about id').refusal = c.refusal := rfl
      rw [hrefusal, Option.none_or]
      cases c.refusal with
      | some err => exact .of_error err
      | none =>
        have heffect := c.effect_called id' (c.drawn w) ((c.about id').drawn w') uuid
          (w.store.get? c.authority.id)
        rw [← hauthority] at heffect
        exact heffect

/-- Twins stay twins where nothing is committed. -/
theorem of_committed (h : Twins remains id id' w w') (hu : u.committed = w.committed)
    (hu' : u'.committed = w'.committed) : Twins remains id id' u u' := by
  have hsame := World.SameAuthority.of_committed hu id
  have hsame' := World.SameAuthority.of_committed hu' id'
  obtain ⟨uuid, hauthority⟩ := h.authority
  refine ⟨⟨uuid, ?_⟩, ?_⟩
  · rw [hsame'.get?, hsame.get?, hauthority]
  · rw [hsame'.current, hsame.current]
    exact h.records

/-- **Twins stay twins** where the same happens to them. A deletion leaves the same of both. -/
theorem leaves (h : Twins remains c.authority.id id' w w')
    {ruling ruling' : Except CommandError Change} (hsame : SameRuling id' ruling ruling')
    (hu : u.committed = c.leaves w ruling) (hu' : u'.committed = (c.about id').leaves w' ruling') :
    Twins remains c.authority.id id' u u' := by
  cases hsame with
  | refused => exact h.of_committed hu hu'
  | @changed change change' called authority events =>
    obtain ⟨uuid, hauthority⟩ := h.authority
    obtain ⟨old, since, hold, hcurrent, hsince⟩ := h.records
    obtain ⟨haggregates, haudit⟩ := Prod.mk.inj hu
    obtain ⟨haggregates', haudit'⟩ := Prod.mk.inj hu'
    have hversion : change'.version (w'.store.get? (c.about id').authority.id) =
        change.version (w.store.get? c.authority.id) :=
      (congrArg change'.version hauthority).trans (Change.version_called authority _ uuid)
    rw [hversion] at haggregates' haudit'
    refine ⟨⟨called, ?_⟩, ?_⟩
    · have hget' := (c.about id').find?_writes_self (change.version (w.store.get? c.authority.id))
        change' w'.store.aggregates
      rw [Store.get?, Store.get?, haggregates, haggregates', c.find?_writes_self]
      refine hget'.trans ?_
      rw [authority]
      cases change.authority <;> rfl
    · have hnone : change'.authority.isNone = change.authority.isNone := by
        rw [authority, Option.isNone_map]
      have hempty : change'.events.isEmpty = change.events.isEmpty := by
        rw [← List.isEmpty_map (f := AuthorityEvent.text), events, List.isEmpty_map]
      have hcurrent' := (c.about id').current_recordsIn
        (change.version (w.store.get? c.authority.id)) change' w'.now w'.audit
      rw [← haudit', hnone, hempty, events] at hcurrent'
      refine ⟨if change.authority.isNone then [] else old,
        (if change.authority.isNone then [] else since) ++
          if c.group = .user ∨ !change.events.isEmpty then
            [AuditLog.recordOf w.audit.nextId w.now
              ⟨c.authority.id, change.version (w.store.get? c.authority.id)⟩ c
              (change.events.map AuthorityEvent.text)]
          else [], ?_, ?_, ?_⟩
      · split
        · exact Or.inr rfl
        · exact hold
      · rw [haudit, c.current_recordsIn, hcurrent, ← List.append_assoc]
        congr 1
        split <;> rfl
      · refine (congrArg (List.map CommandRecord.nameless) hcurrent').trans ?_
        rw [List.map_append, List.map_append]
        congr 1
        · split
          · rfl
          · exact hsince
        · have hgroup : (c.about id').group = c.group := rfl
          rw [hgroup]
          split <;> rfl

/-- **Commands are told the same in both runs**, up to the first that is refused because of a record
that is left over. -/
theorem told_alike (h : Twins remains id id' w w') (hfree : w.store.locks = OrdMap.empty)
    (hfree' : w'.store.locks = OrdMap.empty) {turns turns' : List (World S × Command)}
    (hid : ∀ t ∈ turns, t.2.authority.id = id)
    (hsame : turns'.map Prod.snd = turns.map fun t => t.2.about id')
    {results results' : List (Except CommandError CommandStatus)}
    (hrun : executeEach outside (Engine.standard settings) (levels + 2) turns w = some (results, u))
    (hrun' : executeEach outside (Engine.standard settings) (levels + 2) turns' w' =
      some (results', u'))
    (n : Nat) (hnames : ∀ r ∈ results.take n, ¬CommandError.Names remains r) :
    (results'.take n).map CommandStatus.nameless = (results.take n).map CommandStatus.nameless := by
  induction turns generalizing w w' turns' results results' n with
  | nil =>
    obtain rfl := List.map_eq_nil_iff.mp hsame
    obtain ⟨rfl, -⟩ := Prod.mk.inj (Option.some.inj hrun)
    obtain ⟨rfl, -⟩ := Prod.mk.inj (Option.some.inj hrun')
    rfl
  | cons first rest ih =>
    obtain ⟨around, c⟩ := first
    obtain ⟨⟨around', c'⟩, rest', rfl, hfirst, hrest⟩ := List.map_eq_cons_iff.mp hsame
    obtain rfl : c' = c.about id' := hfirst
    obtain rfl : c.authority.id = id := hid _ List.mem_cons_self
    obtain ⟨v, told, hleaves, hlocks, rfl, hnext⟩ := executeEach_cons hfree hrun
    obtain ⟨v', told', hleaves', hlocks', rfl, hnext'⟩ := executeEach_cons hfree' hrun'
    cases n with
    | zero => rfl
    | succ n =>
      have htwins : Twins remains c.authority.id id' (w.amid around) (w'.amid around') :=
        h.of_committed rfl rfl
      rw [List.take_succ_cons, List.take_succ_cons, List.map_cons, List.map_cons]
      rw [List.take_succ_cons] at hnames
      rcases htwins.ruling with hnamed | hruling
      · exact absurd hnamed (hnames _ List.mem_cons_self)
      · obtain ⟨uuid, hauthority⟩ := htwins.authority
        refine List.cons_eq_cons.mpr ⟨?_, ?_⟩
        · rw [Command.verdict, Command.verdict]
          exact (congrArg (fun found => CommandStatus.nameless ((c.about id').told found _))
            hauthority).trans (c.told_called id' hruling _ uuid)
        · exact ih (htwins.leaves hruling hleaves hleaves') hlocks hlocks'
            (fun t ht => hid t (List.mem_cons_of_mem _ ht)) hrest hnext hnext' n
            fun r hr => hnames r (List.mem_cons_of_mem _ hr)

end World.Twins

namespace World

variable {w w' : World S} {id id' : AggregateId} {turns turns' : List (World S × Command)}
  {results results' : List (Except CommandError CommandStatus)}

/-- **Refusals that name a record** are those of users' commands based on earlier versions. -/
theorem older_of_names {u : World S} {records : List CommandRecord}
    (hfree : w.store.locks = OrdMap.empty)
    (hrun : executeEach outside (Engine.standard settings) (levels + 2) turns w = some (results, u))
    {p : Command × Except CommandError CommandStatus} (hp : p ∈ (turns.map Prod.snd).zip results)
    (hnames : CommandError.Names records p.2) :
    p.1.group = .user ∧ ∃ r ∈ records, p.1.authority.version < r.authority.version := by
  induction turns generalizing w results with
  | nil => exact absurd hp List.not_mem_nil
  | cons first rest ih =>
    obtain ⟨around, c⟩ := first
    obtain ⟨v, told, -, hlocks, rfl, hrest⟩ := executeEach_cons hfree hrun
    rw [List.map_cons, List.zip_cons_cons] at hp
    rcases List.mem_cons.mp hp with rfl | hp
    · dsimp only at hnames ⊢
      cases hverdict : c.verdict (w.amid around) with
      | ok status =>
        rw [hverdict] at hnames
        exact hnames.elim
      | error err =>
        rw [hverdict] at hnames
        cases err with
        | concurrentModification authority current version conflicting =>
          obtain ⟨r, hr, hconflicting⟩ := hnames
          obtain ⟨hgroup, ca, -, -, -, herr⟩ :=
            Command.stale_eq_some_iff.mp (Command.stale_of_verdict hverdict)
          obtain ⟨-, -, -, rfl⟩ := CommandError.concurrentModification.inj herr
          rw [c.unknownRecords_eq] at hconflicting
          have hunknown := (List.mem_filter.mp hconflicting).2
          rw [Command.isUnknown, Bool.and_eq_true, decide_eq_true_eq] at hunknown
          refine ⟨?_, r, hr, hunknown.1⟩
          cases hc : c.group with
          | user => rfl
          | system => exact absurd hc hgroup
        | _ => exact hnames.elim
    · exact ih hlocks hrest hp

/-- **An authority that is created again** is like one that never was there, except for the record
of the deletion of the old one, which is all that is left of it. After any run in which there is no
authority at the end, and after any other run in which another name was never used, the same
commands are told the same under both names, up to the first that is refused because of that record.
A command that is refused so was sent by a user, and is based on a version lower than the one that
the old authority had at the end. -/
theorem recreated (outside : Outside X S) (settings : Settings) (levels : Nat)
    {filter filter' : BgpFilter} {s s' : S} {before before' : List (World S × Command)}
    {earlier earlier' : List (Except CommandError CommandStatus)}
    (hbefore : executeEach outside (Engine.standard settings) (levels + 2) before
      (initial filter s) = some (earlier, w)) (hgone : w.store.get? id = none)
    (hbefore' : executeEach outside (Engine.standard settings) (levels + 2) before'
      (initial filter' s') = some (earlier', w')) (hnever : ∀ t ∈ before', t.2.authority.id ≠ id')
    (hid : ∀ t ∈ turns, t.2.authority.id = id)
    (hsame : turns'.map Prod.snd = turns.map fun t => t.2.about id') :
    (w.audit.current id = [] ∨
      ∃ r, w.audit.current id = [r] ∧ r.type = .deleteCertificateAuthority) ∧
    ∃ results results' u u',
      executeEach outside (Engine.standard settings) (levels + 2) turns w = some (results, u) ∧
      executeEach outside (Engine.standard settings) (levels + 2) turns' w' = some (results', u') ∧
      (∀ n, (∀ r ∈ results.take n, ¬CommandError.Names (w.audit.current id) r) →
        (results'.take n).map CommandStatus.nameless =
          (results.take n).map CommandStatus.nameless) ∧
      ∀ p ∈ (turns.map Prod.snd).zip results, CommandError.Names (w.audit.current id) p.2 →
        p.1.group = .user ∧
          ∃ r ∈ w.audit.current id, p.1.authority.version < r.authority.version := by
  have hburied : w.Buried := executeEach_preserves (P := Buried)
    (fun t _ _ _ _ hw ho => ho.buried hw) hbefore fun _ _ => Or.inl rfl
  have hunused : w'.store.get? id' = none ∧ w'.audit.current id' = [] := by
    refine executeEach_preserves (P := fun w => w.store.get? id' = none ∧ w.audit.current id' = [])
      (fun t ht w r u hw ho => ?_) hbefore' ⟨rfl, rfl⟩
    have hother := ho.sameAuthority (hnever t ht).symm
    exact ⟨hother.get?.trans hw.1, hother.current.trans hw.2⟩
  have htwins : Twins (w.audit.current id) id id' w w' := by
    refine ⟨⟨Uuid.ofNat 0, ?_⟩, _, [], Or.inl rfl, (List.append_nil _).symm, ?_⟩
    · rw [hunused.1, hgone]
      rfl
    · rw [hunused.2]
  obtain ⟨_, w₁, hw₁, hfree⟩ := executeEach_total outside settings levels before
    (w := initial filter s) rfl
  obtain ⟨-, rfl⟩ := Prod.mk.inj (Option.some.inj (hbefore.symm.trans hw₁))
  obtain ⟨_, w₂, hw₂, hfree'⟩ := executeEach_total outside settings levels before'
    (w := initial filter' s') rfl
  obtain ⟨-, rfl⟩ := Prod.mk.inj (Option.some.inj (hbefore'.symm.trans hw₂))
  obtain ⟨results, u, hrun, -⟩ := executeEach_total outside settings levels turns hfree
  obtain ⟨results', u', hrun', -⟩ := executeEach_total outside settings levels turns' hfree'
  exact ⟨hburied id hgone, results, results', u, u', hrun, hrun',
    htwins.told_alike hfree hfree' hid hsame hrun hrun',
    fun p hp hnames => older_of_names hfree hrun hp hnames⟩

/-- An authority is created, subscribed to by a user, and deleted. -/
def deletedBefore : List (World Unit × Command) :=
  [⟨⟨1, 0⟩, .system, .createCertificateAuthority "authority"⟩,
    ⟨⟨1, 0⟩, .user "alice", .subscribeToRoaAlert "a@example.org" (OrdSet.ofMembers [.unknown])
      .daily⟩,
    ⟨⟨1, 1⟩, .user "alice", .deleteCertificateAuthority⟩].map (initial .standard (), ·)

/-- An authority is created and given a certificate, and a user subscribes to it who has seen it at
some version. -/
def subscribedAt (version : Nat) (id : AggregateId) : List (World Unit × Command) :=
  [⟨⟨id, 0⟩, .system, .createCertificateAuthority "authority"⟩,
    ⟨⟨id, 0⟩, .system, .updateIncomingCertificate "key" ⟨[⟨64496, 64511⟩], [], []⟩⟩,
    ⟨⟨id, version⟩, .user "bob", .subscribeToRoaAlert "b@example.org"
      (OrdSet.ofMembers [.unknown]) .daily⟩].map (initial .standard (), ·)

/-- A user who has seen the certificate of the new authority is not refused under either name. -/
theorem recreated_subscribed :
    ∃ earlier w results results' u u',
      executeEach Outside.none (Engine.standard .standard) 2 deletedBefore (initial .standard ()) =
        some (earlier, w) ∧ w.store.get? 1 = none ∧
      executeEach Outside.none (Engine.standard .standard) 2 (subscribedAt 1 1) w =
        some (results, u) ∧
      executeEach Outside.none (Engine.standard .standard) 2 (subscribedAt 1 2)
        (initial .standard ()) = some (results', u') ∧
      results.map Except.toOption =
        [some ⟨true, ⟨1, 0⟩⟩, some ⟨true, ⟨1, 1⟩⟩, some ⟨true, ⟨1, 2⟩⟩] ∧
      results'.map CommandStatus.nameless = results.map CommandStatus.nameless := by
  have hcompute : (executeEach Outside.none (Engine.standard .standard) 2 deletedBefore
      (initial .standard ())).bind (fun p =>
        (executeEach Outside.none (Engine.standard .standard) 2 (subscribedAt 1 1) p.2).map
          fun q => ((p.2.store.get? 1).isNone, q.1.map Except.toOption)) =
        some (true, [some ⟨true, ⟨1, 0⟩⟩, some ⟨true, ⟨1, 1⟩⟩, some ⟨true, ⟨1, 2⟩⟩]) := by
    decide +kernel
  obtain ⟨earlier, w, hbefore, -⟩ := executeEach_total Outside.none .standard 0 deletedBefore
    (w := initial .standard ()) rfl
  rw [hbefore, Option.bind_some] at hcompute
  obtain ⟨⟨results, u⟩, hrun, hresults⟩ := Option.map_eq_some_iff.mp hcompute
  obtain ⟨hnone, htold⟩ := Prod.mk.inj hresults
  have hgone : w.store.get? 1 = none := Option.isNone_iff_eq_none.mp hnone
  have hbefore' : executeEach Outside.none (Engine.standard .standard) 2 []
      (initial .standard ()) = some ([], initial .standard ()) := rfl
  have hid : ∀ t ∈ subscribedAt 1 1, t.2.authority.id = 1 := by decide
  have hcommands : (subscribedAt 1 2).map Prod.snd =
      (subscribedAt 1 1).map fun t => t.2.about 2 := rfl
  obtain ⟨-, results₁, results', u₁, u', hrun₁, hrun', hsame, -⟩ :=
    recreated Outside.none .standard 0 hbefore hgone hbefore'
      (fun t ht => absurd ht List.not_mem_nil) hid hcommands
  obtain ⟨rfl, rfl⟩ := Prod.mk.inj (Option.some.inj (hrun.symm.trans hrun₁))
  have haccepted : ∀ r ∈ results, ¬CommandError.Names (w.audit.current 1) r := by
    intro r hr hnames
    have hsome : Except.toOption r ∈ results.map Except.toOption := List.mem_map_of_mem hr
    cases r with
    | ok status => exact hnames
    | error err =>
      rw [htold] at hsome
      exact absurd hsome (by simp [Except.toOption])
  have hall := hsame (results.length + results'.length)
    fun r hr => haccepted r (List.mem_of_mem_take hr)
  rw [List.take_of_length_le (Nat.le_add_left _ _), List.take_of_length_le (Nat.le_add_right _ _)]
    at hall
  exact ⟨earlier, w, results, results', u, u', hbefore, hgone, hrun, hrun', htold, hall⟩

/-- **The record of a deletion does refuse commands**: a user who has seen the new authority without
its certificate is refused because the old authority was deleted at its version one. Under a name
that was never used the same command has its effect. -/
theorem not_recreated_alike :
    ¬∀ (before turns turns' : List (World Unit × Command)) (id id' : AggregateId)
      (earlier results results' : List (Except CommandError CommandStatus)) (w u u' : World Unit),
      executeEach Outside.none (Engine.standard .standard) 2 before (initial .standard ()) =
        some (earlier, w) →
      (∃ t ∈ before, t.2.authority.id = id ∧ t.2.type = .deleteCertificateAuthority) →
      w.store.get? id = none → (∀ t ∈ before, t.2.authority.id ≠ id') →
      (∀ t ∈ turns, t.2.authority.id = id) →
      turns'.map Prod.snd = turns.map (fun t => t.2.about id') →
      executeEach Outside.none (Engine.standard .standard) 2 turns w = some (results, u) →
      executeEach Outside.none (Engine.standard .standard) 2 turns' w = some (results', u') →
      results'.map CommandStatus.nameless = results.map CommandStatus.nameless := by
  intro h
  have hcompute : (executeEach Outside.none (Engine.standard .standard) 2 deletedBefore
      (initial .standard ())).bind (fun p =>
        (executeEach Outside.none (Engine.standard .standard) 2 (subscribedAt 0 1) p.2).bind
          fun q => (executeEach Outside.none (Engine.standard .standard) 2 (subscribedAt 0 2)
            p.2).map fun q' => ((p.2.store.get? 1).isNone, q.1.map fun r => r.toOption.isSome,
              q'.1.map fun r => r.toOption.isSome)) =
        some (true, [true, true, false], [true, true, true]) := by
    decide +kernel
  obtain ⟨⟨earlier, w⟩, hbefore, hafter⟩ := Option.bind_eq_some_iff.mp hcompute
  obtain ⟨⟨results, u⟩, hrun, hafter⟩ := Option.bind_eq_some_iff.mp hafter
  obtain ⟨⟨results', u'⟩, hrun', htold⟩ := Option.map_eq_some_iff.mp hafter
  obtain ⟨hgone, htold⟩ := Prod.mk.inj htold
  obtain ⟨hrefused, haccepted⟩ := Prod.mk.inj htold
  have hsame := h deletedBefore (subscribedAt 0 1) (subscribedAt 0 2) 1 2 earlier results results' w
    u u' hbefore (by decide) (Option.isNone_iff_eq_none.mp hgone) (by decide) (by decide) rfl hrun
    hrun'
  have hok : ∀ r : Except CommandError CommandStatus,
      (CommandStatus.nameless r).toOption.isSome = r.toOption.isSome := by
    intro r
    cases r <;> rfl
  have halike := congrArg (List.map fun r => r.toOption.isSome) hsame
  rw [List.map_map, List.map_map, funext (f := _ ∘ _) hok, hrefused, haccepted] at halike
  exact absurd halike (by decide)

end World

end RpkiAuthority
