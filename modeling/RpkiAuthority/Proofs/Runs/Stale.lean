import RpkiAuthority.Proofs.Engine.Decided
import RpkiAuthority.Proofs.Runs.Recorded

/-!
# Which commands of users are refused

A user who sends a command says which version of the authority it is based on. What the engine then
looks at is the audit log: the command is refused if the log has current records of later versions
that users led to. Since the log follows the authority (`Followed`), these are exactly the records
of what users did to it after that version (`map_heading_unknownRecords`), so a command is refused
if and only if a user has changed the authority behind its sender's back, and told who and how.

The system changes authorities too, and moves their versions on. Its commands are recorded like
others, and a user's command that is based on a version from before them goes through.

Read the other way round this is the promise to users (`World.Ran.version_le`): no change of
another user is ever overwritten by someone who does not know of it.
-/

namespace RpkiAuthority

variable {X : Interface} {S : Type}

/-! ### Records name the senders of their commands -/

/-- Every record names the group that commands of its type are sent by. -/
def AuditLog.Grouped (log : AuditLog) : Prop := ∀ r ∈ log.records, r.group = r.type.group

namespace AuditLog

variable {log : AuditLog}

theorem Grouped.add (h : log.Grouped) (now : Timestamp) (authority : VersionedId) (c : Command)
    (events : List String) : (log.add now authority c events).2.Grouped := by
  intro r hr
  rcases List.mem_append.mp hr with hr | hr
  · exact h r hr
  · rw [List.mem_singleton.mp hr]
    rfl

theorem Grouped.delete (h : log.Grouped) (now : Timestamp) (id : AggregateId) :
    (log.delete now id).2.Grouped := by
  intro r hr
  obtain ⟨r, hin, rfl⟩ := List.mem_map.mp hr
  split <;> exact h r hin

end AuditLog

/-- Records are written for the group of their command. -/
theorem Command.Outcome.grouped {c : Command} {w w' : World S}
    {r : Except CommandError CommandStatus} (ho : c.Outcome w r w') (hw : w.audit.Grouped) :
    w'.audit.Grouped := by
  cases ho with
  | failed same => exact same.audit ▸ hw
  | idle _ same => exact same.audit ▸ hw
  | @effective uuid change _ _ _ _ _ haudit =>
    have hmarked : (if change.authority.isNone then (w.audit.delete w.now c.authority.id).2
        else w.audit).Grouped := by
      split
      · exact hw.delete _ _
      · exact hw
    rw [haudit, Command.recordsIn]
    split
    · exact hmarked.add _ _ _ _
    · exact hmarked

theorem World.Ran.grouped {w w' : World S} {history : RunHistory} (h : World.Ran w history w')
    (hw : w.audit.Grouped) : w'.audit.Grouped :=
  h.preserves (P := fun _ w => w.audit.Grouped) (fun _ _ _ _ _ hu ho => ho.grouped hu) [] hw

/-! ### What users did since a version -/

/-- The heading of a command if a user sent it and it led to a later version of the authority. -/
def userHeadingSince (v : VersionedId) (p : Command × Except CommandError CommandStatus) :
    Option Heading :=
  if p.1.group = .user ∧ p.1.authority.id = v.id then
    ((effectOf p.2).filter fun u => v.version < u.version).map p.1.heading
  else none

/-- The commands of users with effect on an authority that led to later versions of it. -/
def userHeadingsSince (v : VersionedId) (history : RunHistory) : List Heading :=
  history.filterMap (userHeadingSince v)

theorem userHeadingSince_eq_some_iff {v : VersionedId}
    {p : Command × Except CommandError CommandStatus} {h : Heading} :
    userHeadingSince v p = some h ↔ p.1.group = .user ∧ p.1.authority.id = v.id ∧
      ∃ u, effectOf p.2 = some u ∧ v.version < u.version ∧ p.1.heading u = h := by
  rw [userHeadingSince]
  by_cases hp : p.1.group = .user ∧ p.1.authority.id = v.id
  · rw [if_pos hp, Option.map_eq_some_iff]
    simp only [hp, true_and, Option.filter_eq_some_iff, decide_eq_true_eq, and_assoc]
  · rw [if_neg hp]
    exact ⟨nofun, fun h => absurd ⟨h.1, h.2.1⟩ hp⟩

/-- There is such a command where there is the heading of one. -/
theorem userHeadingsSince_ne_nil_iff {v : VersionedId} {history : RunHistory} :
    userHeadingsSince v history ≠ [] ↔ ∃ p ∈ history, p.1.group = .user ∧
      p.1.authority.id = v.id ∧ ∃ u, effectOf p.2 = some u ∧ v.version < u.version := by
  constructor
  · intro hne
    obtain ⟨h, hmem⟩ := List.exists_mem_of_ne_nil _ hne
    obtain ⟨p, hp, hh⟩ := List.mem_filterMap.mp hmem
    obtain ⟨hgroup, hid, u, hu, hlt, -⟩ := userHeadingSince_eq_some_iff.mp hh
    exact ⟨p, hp, hgroup, hid, u, hu, hlt⟩
  · rintro ⟨p, hp, hgroup, hid, u, hu, hlt⟩
    exact List.ne_nil_of_mem (List.mem_filterMap.mpr
      ⟨p, hp, userHeadingSince_eq_some_iff.mpr ⟨hgroup, hid, u, hu, hlt, rfl⟩⟩)

/-- They are among all commands with effect on the authority. -/
theorem userHeadingsSince_eq (v : VersionedId) (history : RunHistory) :
    userHeadingsSince v history = (headings v.id history).filter fun h =>
      v.version < h.authority.version && h.type.group == .user := by
  rw [userHeadingsSince, headings, List.filter_filterMap]
  refine congrArg (fun f => List.filterMap f history) (funext fun p => Option.ext fun h => ?_)
  rw [userHeadingSince_eq_some_iff, Option.filter_eq_some_iff]
  simp only [Option.ite_none_right_eq_some, Option.map_eq_some_iff, Bool.and_eq_true,
    decide_eq_true_eq, beq_iff_eq]
  constructor
  · rintro ⟨hgroup, hid, u, hu, hlt, rfl⟩
    refine ⟨⟨⟨hid, fun hcreate => ?_⟩, u, hu, rfl⟩, hlt, hgroup⟩
    rw [Command.group, hcreate] at hgroup
    exact absurd hgroup (by decide)
  · rintro ⟨⟨⟨hid, -⟩, u, hu, rfl⟩, hlt, hgroup⟩
    exact ⟨hgroup, hid, u, hu, hlt, rfl⟩

/-- **What a user's command does not know of** is what users did since its version: the log has a
record of each such command, and no others of users. -/
theorem map_heading_unknownRecords {c : Command} {w : World S} {history : RunHistory}
    (hw : w.audit.Grouped)
    (hsaid : (w.audit.current c.authority.id).map CommandRecord.heading =
      headings c.authority.id history) :
    (c.unknownRecords w).map CommandRecord.heading = userHeadingsSince c.authority history := by
  rw [userHeadingsSince_eq, ← hsaid, Command.unknownRecords, AuditLog.since_eq, List.filter_map,
    List.filter_filter]
  refine congrArg (List.map _) (List.filter_congr fun r hr => ?_)
  have hgroup : r.group = r.type.group := hw r (List.mem_filter.mp hr).1
  rw [Bool.and_comm, hgroup]
  rfl

/-- The records of an authority that is there are those of the commands with effect on it. -/
theorem Followed.said {history : RunHistory} {w : World S} {id : AggregateId}
    {ca : CertificateAuthority} (h : Followed history w id) (hget : w.store.get? id = some ca) :
    (w.audit.current id).map CommandRecord.heading = headings id history := by
  cases h with
  | absent get => exact absurd (hget.symm.trans get) (Option.some_ne_none _)
  | deleted get => exact absurd (hget.symm.trans get) (Option.some_ne_none _)
  | present _ _ _ _ said => exact said

/-- An authority that is there has reached the version of every command with effect on it. -/
theorem Followed.version_le {history : RunHistory} {w : World S} {id : AggregateId}
    {ca : CertificateAuthority} (h : Followed history w id) (hget : w.store.get? id = some ca)
    {p : Command × Except CommandError CommandStatus} (hp : p ∈ history)
    (hid : p.1.authority.id = id) (htype : p.1.type ≠ .createCertificateAuthority)
    {u : VersionedId} (hu : effectOf p.2 = some u) :
    u.version ≤ ca.version := by
  cases h with
  | absent get => exact absurd (hget.symm.trans get) (Option.some_ne_none _)
  | deleted get => exact absurd (hget.symm.trans get) (Option.some_ne_none _)
  | present get _ _ versions said =>
    obtain rfl := Option.some.inj (hget.symm.trans get)
    have hheading : p.1.heading u ∈ headings id history := by
      refine List.mem_filterMap.mpr ⟨p, hp, ?_⟩
      rw [if_pos ⟨hid, htype⟩, hu]
      rfl
    obtain ⟨r, hr, hrecord⟩ := List.mem_map.mp (said ▸ hheading)
    have hversion : r.authority.version ∈ List.range' 1 ca.version :=
      versions ▸ List.mem_map_of_mem hr
    have hu : r.authority = u := congrArg Heading.authority hrecord
    rw [List.mem_range'_1, hu] at hversion
    omega

/-! ### Nobody overwrites what they do not know of -/

/-- **A user's command with effect is based on a version no older than those that users led to**
before. -/
theorem Command.Outcome.version_le {c : Command} {w w' : World S}
    {r : Except CommandError CommandStatus} {v : VersionedId} {history : RunHistory}
    (ho : c.Outcome w r w') (hr : effectOf r = some v) (hc : c.group = .user)
    (hw : w.audit.Grouped) (hfollowed : Followed history w c.authority.id)
    {p : Command × Except CommandError CommandStatus} (hp : p ∈ history)
    (hgroup : p.1.group = .user) (hid : p.1.authority.id = c.authority.id) {u : VersionedId}
    (hu : effectOf p.2 = some u) :
    u.version ≤ c.authority.version := by
  have hnotSystem : ∀ {c : Command}, c.group = .user → c.type ≠ .createCertificateAuthority := by
    intro c hc hcreate
    rw [Command.group, hcreate] at hc
    exact absurd hc (by decide)
  cases ho with
  | failed => exact absurd hr.symm (Option.some_ne_none v)
  | idle => exact absurd hr.symm (Option.some_ne_none v)
  | @effective uuid change _ fresh _ heffect =>
    cases hfound : w.store.get? c.authority.id with
    | none =>
      rw [hfound] at heffect
      obtain ⟨name, hd, -⟩ := Command.effect_none_eq_ok heffect
      exact absurd (by rw [Command.type, hd]; rfl) (hnotSystem hc)
    | some ca =>
      refine Nat.le_of_not_lt fun hlt => ?_
      have hle : u.version ≤ ca.version :=
        hfollowed.version_le hfound hp hid (hnotSystem hgroup) hu
      -- so the command was stale, and had no effect
      have hunknown : c.unknownRecords w ≠ [] := by
        have hsince := userHeadingsSince_ne_nil_iff.mpr ⟨p, hp, hgroup, hid, u, hu, hlt⟩
        rw [← map_heading_unknownRecords hw (hfollowed.said hfound)] at hsince
        exact fun hnil => hsince (by rw [hnil]; rfl)
      have hstale := Command.stale_eq_some_iff.mpr
        ⟨by rw [hc]; decide, ca, hfound, Nat.lt_of_lt_of_le hlt hle, hunknown, rfl⟩
      rw [fresh] at hstale
      exact absurd hstale.symm (Option.some_ne_none _)

namespace World

/-- Commands that are executed one after the other leave no lock. -/
theorem locks_of_executeAll {outside : Outside X S} {settings : Settings} {levels : Nat}
    {commands : List Command} {w w' : World S} {results : List (Except CommandError CommandStatus)}
    (h : executeAll outside (Engine.standard settings) (levels + 2) commands w =
      some (results, w')) (hfree : w.store.locks = OrdMap.empty) :
    w'.store.locks = OrdMap.empty := by
  induction commands generalizing w results with
  | nil =>
    obtain ⟨-, rfl⟩ := Prod.mk.inj (Option.some.inj h)
    exact hfree
  | cons c rest ih =>
    obtain ⟨u, hu, -, -, hlocks⟩ := Engine.execute_eq_verdict outside settings levels c hfree
    rw [executeAll, hu, Option.bind_some, Option.map_eq_some_iff] at h
    obtain ⟨⟨results', u'⟩, hrest, heq⟩ := h
    obtain ⟨-, rfl⟩ := Prod.mk.inj heq
    exact ih hrest hlocks

/-- The part of a run up to a command, and the end of that command. -/
theorem Ran.split {w w' : World S} {before after : RunHistory} {c : Command}
    {r : Except CommandError CommandStatus} (h : Ran w (before ++ (c, r) :: after) w') :
    ∃ u u', Ran w before u ∧ c.Outcome u r u' := by
  induction before generalizing w with
  | nil =>
    cases h with
    | cons first _ => exact ⟨w, _, .nil w, first⟩
  | cons p rest ih =>
    cases h with
    | cons first hrest =>
      obtain ⟨u, u', hran, ho⟩ := ih hrest
      exact ⟨u, u', .cons first hran, ho⟩

/-- **Users are refused for what users did**, and told what. After any run in which no authority is
created twice: a command of a user on an authority that is there is refused if and only if it is
based on an old version and a user has led to a later one, and the error lists the records of all
such commands in the order in which they were executed. So among the commands of users with effect
on an authority each is based on a version no older than those that the ones before it led to. -/
theorem executeAll_refuses (outside : Outside X S) (settings : Settings) (levels : Nat)
    (filter : BgpFilter) (s : S) (commands : List Command) :
    ∃ results w, executeAll outside (Engine.standard settings) (levels + 2) commands
        (initial filter s) = some (results, w) ∧ results.length = commands.length ∧
      (CreatedOnce (commands.zip results) →
        (∀ c ca, c.group = .user → w.store.get? c.authority.id = some ca →
          ∃ r w', execute outside (Engine.standard settings) (levels + 2) c w = some (r, w') ∧
            ((∃ id current version records,
                r = .error (.concurrentModification id current version records)) ↔
              c.authority.version < ca.version ∧ ∃ p ∈ commands.zip results,
                p.1.group = .user ∧ p.1.authority.id = c.authority.id ∧
                  ∃ v, effectOf p.2 = some v ∧ c.authority.version < v.version) ∧
            ∀ id current version records,
              r = .error (.concurrentModification id current version records) →
                id = c.authority.id ∧ current = ca.version ∧ version = c.authority.version ∧
                  records.Sublist w.audit.records ∧
                  records.map CommandRecord.heading =
                    userHeadingsSince c.authority (commands.zip results)) ∧
        ∀ before middle after c₁ c₂ r₁ r₂ v₁ v₂,
          commands.zip results = before ++ (c₁, r₁) :: (middle ++ (c₂, r₂) :: after) →
          c₁.group = .user → c₂.group = .user → c₁.authority.id = c₂.authority.id →
          effectOf r₁ = some v₁ → effectOf r₂ = some v₂ →
          v₁.version ≤ c₂.authority.version) := by
  obtain ⟨results, w, hrun, hlength, hran⟩ := executeAll_ran outside settings levels commands
    (initial filter s)
  have hgrouped : (initial filter s).audit.Grouped := fun r hr => absurd hr List.not_mem_nil
  refine ⟨results, w, hrun, hlength, fun honce => ⟨fun c ca hc hget => ?_, ?_⟩⟩
  · obtain ⟨w', hw', -⟩ := Engine.execute_eq_verdict outside settings levels c
      (locks_of_executeAll hrun rfl)
    have hsaid := map_heading_unknownRecords (hran.grouped hgrouped)
      ((hran.followed honce c.authority.id).said hget)
    refine ⟨c.verdict w, w', hw', ?_, fun id current version records hr => ?_⟩
    · rw [← userHeadingsSince_ne_nil_iff, ← hsaid]
      constructor
      · rintro ⟨id, current, version, records, hr⟩
        obtain ⟨-, found, hfound, hlt, hne, -⟩ :=
          Command.stale_eq_some_iff.mp (Command.stale_of_verdict hr)
        obtain rfl := Option.some.inj (hget.symm.trans hfound)
        exact ⟨hlt, fun hnil => hne (List.map_eq_nil_iff.mp hnil)⟩
      · rintro ⟨hlt, hne⟩
        refine ⟨_, _, _, _, Command.verdict_of_stale (Command.stale_eq_some_iff.mpr
          ⟨by rw [hc]; decide, ca, hget, hlt, fun hnil => hne (by rw [hnil]; rfl), rfl⟩)⟩
    · obtain ⟨-, found, hfound, -, -, herr⟩ :=
        Command.stale_eq_some_iff.mp (Command.stale_of_verdict hr)
      obtain rfl := Option.some.inj (hget.symm.trans hfound)
      obtain ⟨rfl, rfl, rfl, rfl⟩ := CommandError.concurrentModification.inj herr
      exact ⟨rfl, rfl, rfl, List.filter_sublist.trans List.filter_sublist, hsaid⟩
  · intro before middle after c₁ c₂ r₁ r₂ v₁ v₂ hhistory hc₁ hc₂ hid hv₁ hv₂
    have hsplit : commands.zip results =
        (before ++ (c₁, r₁) :: middle) ++ (c₂, r₂) :: after := by
      rw [hhistory, List.append_assoc, List.cons_append]
    rw [hsplit] at hran honce
    -- the second command meets the world that the run up to it has led to
    obtain ⟨u, u', hbefore, ho⟩ := hran.split
    exact ho.version_le hv₂ hc₂ (hbefore.grouped hgrouped)
      (hbefore.followed honce.of_append c₂.authority.id)
      (List.mem_append_right before List.mem_cons_self) hc₁ hid hv₁

/-- An authority is created, subscribed to by a user, and given a certificate. -/
def subscribed : List Command :=
  [⟨⟨1, 0⟩, .system, .createCertificateAuthority "authority"⟩,
    ⟨⟨1, 0⟩, .user "alice", .subscribeToRoaAlert "a@example.org" (OrdSet.ofMembers [.unknown])
      .daily⟩,
    ⟨⟨1, 1⟩, .system, .updateIncomingCertificate "key" ⟨[⟨64496, 64511⟩], [], []⟩⟩]

/-- Another user who has seen the authority without the subscription is refused because of it; one
who has seen it without the certificate is not. -/
theorem executeAll_refuses_subscribed :
    ∃ results w, executeAll Outside.none (Engine.standard .standard) 2 subscribed
        (initial .standard ()) = some (results, w) ∧
      (∃ r w' records, execute Outside.none (Engine.standard .standard) 2
          ⟨⟨1, 0⟩, .user "bob", .deleteCertificateAuthority⟩ w = some (r, w') ∧
        r = .error (.concurrentModification 1 2 0 records) ∧
        records.map (fun record => (record.authority, record.actor)) = [(⟨1, 1⟩, "alice")]) ∧
      ∃ r w', execute Outside.none (Engine.standard .standard) 2
          ⟨⟨1, 1⟩, .user "bob", .deleteCertificateAuthority⟩ w = some (r, w') ∧
        ∀ id current version records,
          r ≠ .error (.concurrentModification id current version records) := by
  have hcompute : (executeAll Outside.none (Engine.standard .standard) 2 subscribed
      (initial .standard ())).map (fun q => (created (subscribed.zip q.1),
        (q.2.store.get? 1).map CertificateAuthority.version,
        (userHeadingsSince ⟨1, 0⟩ (subscribed.zip q.1)).map fun h => (h.authority, h.actor),
        (userHeadingsSince ⟨1, 1⟩ (subscribed.zip q.1)).isEmpty)) =
          some ([1], some 2, [(⟨1, 1⟩, "alice")], true) := by
    decide +kernel
  obtain ⟨results, w, hrun, -, hall⟩ :=
    executeAll_refuses Outside.none .standard 0 .standard () subscribed
  rw [hrun, Option.map_some] at hcompute
  obtain ⟨hcreated, hversion, hsince, hnone⟩ : created (subscribed.zip results) = [1] ∧
      (w.store.get? 1).map CertificateAuthority.version = some 2 ∧
      (userHeadingsSince ⟨1, 0⟩ (subscribed.zip results)).map (fun h => (h.authority, h.actor)) =
        [(⟨1, 1⟩, "alice")] ∧ userHeadingsSince ⟨1, 1⟩ (subscribed.zip results) = [] := by
    simpa using hcompute
  obtain ⟨ca, hget, hca⟩ := Option.map_eq_some_iff.mp hversion
  obtain ⟨hrefuses, -⟩ := hall (by rw [CreatedOnce, hcreated]; decide)
  refine ⟨results, w, hrun, ?_, ?_⟩
  · obtain ⟨r, w', hr, hiff, hrecords⟩ :=
      hrefuses ⟨⟨1, 0⟩, .user "bob", .deleteCertificateAuthority⟩ ca rfl hget
    have hne : userHeadingsSince ⟨1, 0⟩ (subscribed.zip results) ≠ [] := by
      intro hnil
      rw [hnil] at hsince
      exact absurd hsince (by simp)
    obtain ⟨id, current, version, records, rfl⟩ :=
      hiff.mpr ⟨by rw [hca]; decide, userHeadingsSince_ne_nil_iff.mp hne⟩
    obtain ⟨rfl, rfl, rfl, -, hheadings⟩ := hrecords _ _ _ _ rfl
    refine ⟨_, w', records, hr, by rw [hca], ?_⟩
    rw [← hsince, ← hheadings, List.map_map]
    rfl
  · obtain ⟨r, w', hr, hiff, -⟩ :=
      hrefuses ⟨⟨1, 1⟩, .user "bob", .deleteCertificateAuthority⟩ ca rfl hget
    refine ⟨r, w', hr, ?_⟩
    rintro id current version records rfl
    obtain ⟨-, hsome⟩ := hiff.mp ⟨id, current, version, records, rfl⟩
    exact userHeadingsSince_ne_nil_iff.mpr hsome hnone

end World

end RpkiAuthority
