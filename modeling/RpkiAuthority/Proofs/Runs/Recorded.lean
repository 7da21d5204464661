import RpkiAuthority.Proofs.History.About
import RpkiAuthority.Proofs.Runs.Basic

/-!
# One record for each version

Of three things it is decided separately what a command with effect does to them: the version of
the authority, by what the transaction changed; whether there is a record, by who sent the command
and whether it led to events; and which records are marked, by what the handler asked for. That
they agree is seen by following an authority through a run (`Followed`): before it is created
there is nothing; while it exists its current records carry the versions from one up to its own;
and once it is deleted only the record of the deletion is left.

Versions start again when an authority is created again, and then its old records are not told from
new ones. So all of this is about runs in which nothing is created twice.
-/

namespace RpkiAuthority

variable {X : Interface} {S : Type}

/-- What a record says about a command: the version it led to, who sent it, and what it was. -/
structure Heading where
  authority : VersionedId
  actor : String
  type : CommandType
  summary : String
  deriving DecidableEq

/-- The heading of a record. -/
def CommandRecord.heading (r : CommandRecord) : Heading := ⟨r.authority, r.actor, r.type, r.summary⟩

/-- The heading that a command gets when it led to a version. -/
def Command.heading (c : Command) (authority : VersionedId) : Heading :=
  ⟨authority, c.actor.name, c.type, c.summary⟩

/-! ### What a history says about an authority -/

/-- The version that a command with effect led to. -/
def effectOf : Except CommandError CommandStatus → Option VersionedId
  | .ok status => if status.hasEffect then some status.authority else none
  | .error _ => none

/-- The commands with effect on an authority, other than its creation. -/
def headings (id : AggregateId) (history : RunHistory) : List Heading :=
  history.filterMap fun p =>
    if p.1.authority.id = id ∧ p.1.type ≠ .createCertificateAuthority then
      (effectOf p.2).map p.1.heading
    else none

/-- The authorities that were created. -/
def created (history : RunHistory) : List AggregateId :=
  history.filterMap fun p =>
    if p.1.type = .createCertificateAuthority then (effectOf p.2).map fun _ => p.1.authority.id
    else none

/-- No authority was created twice. -/
def CreatedOnce (history : RunHistory) : Prop := (created history).Nodup

theorem CreatedOnce.of_append {before after : RunHistory} (h : CreatedOnce (before ++ after)) :
    CreatedOnce before := by
  rw [CreatedOnce, created, List.filterMap_append] at h
  exact (List.nodup_append.mp h).1

section Snoc

variable (history : RunHistory) (c : Command) (r : Except CommandError CommandStatus)
  (id : AggregateId)

theorem headings_snoc :
    headings id (history ++ [(c, r)]) = headings id history ++
      if c.authority.id = id ∧ c.type ≠ .createCertificateAuthority then
        ((effectOf r).map c.heading).toList
      else [] := by
  rw [headings, List.filterMap_append, headings]
  congr 1
  split <;> next h => cases he : effectOf r <;> simp [h, he]

theorem created_snoc :
    created (history ++ [(c, r)]) = created history ++
      if c.type = .createCertificateAuthority then
        ((effectOf r).map fun _ => c.authority.id).toList
      else [] := by
  rw [created, List.filterMap_append, created]
  congr 1
  split <;> next h => cases he : effectOf r <;> simp [h, he]

variable {history c r id}

theorem CreatedOnce.init (h : CreatedOnce (history ++ [(c, r)])) : CreatedOnce history :=
  h.of_append

/-- A command without effect says nothing. -/
theorem headings_snoc_of_none (h : effectOf r = none) :
    headings id (history ++ [(c, r)]) = headings id history := by
  rw [headings_snoc, h]
  simp

theorem created_snoc_of_none (h : effectOf r = none) :
    created (history ++ [(c, r)]) = created history := by
  rw [created_snoc, h]
  simp

/-- A command says nothing about other authorities. -/
theorem headings_snoc_of_ne (h : id ≠ c.authority.id) :
    headings id (history ++ [(c, r)]) = headings id history := by
  rw [headings_snoc, if_neg fun hc => h hc.1.symm, List.append_nil]

/-- A command with effect on an authority says so, unless it is the creation. -/
theorem headings_snoc_of_effect {v : VersionedId} (h : c.type ≠ .createCertificateAuthority)
    (he : effectOf r = some v) : headings c.authority.id (history ++ [(c, r)]) =
      headings c.authority.id history ++ [c.heading v] := by
  rw [headings_snoc, if_pos ⟨rfl, h⟩, he]
  rfl

theorem created_snoc_of_type_ne (h : c.type ≠ .createCertificateAuthority) :
    created (history ++ [(c, r)]) = created history := by
  rw [created_snoc, if_neg h, List.append_nil]

theorem mem_created_snoc_of_ne (h : id ≠ c.authority.id) :
    id ∈ created (history ++ [(c, r)]) ↔ id ∈ created history := by
  rw [created_snoc, List.mem_append, or_iff_left]
  split
  · cases effectOf r <;> simp [h]
  · exact List.not_mem_nil

end Snoc

/-! ### What an effect does to the log -/

section Log

variable {c : Command} {version : Nat} {change : Change} {now : Timestamp} {audit : AuditLog}

theorem current_recordsIn_of_ne {id : AggregateId} (h : id ≠ c.authority.id) :
    (c.recordsIn version change now audit).current id = audit.current id := by
  rw [AuditLog.current_eq, AuditLog.current_eq, c.about_recordsIn_of_ne version change now audit h]

/-- What a command that has an effect leaves of the current records of its authority. -/
theorem Command.current_recordsIn (c : Command) (version : Nat) (change : Change)
    (now : Timestamp) (audit : AuditLog) :
    (c.recordsIn version change now audit).current c.authority.id =
      (if change.authority.isNone then [] else audit.current c.authority.id) ++
        if c.group = .user ∨ !change.events.isEmpty then
          [AuditLog.recordOf audit.nextId now ⟨c.authority.id, version⟩ c
            (change.events.map AuthorityEvent.text)]
        else [] := by
  have hmarked : (if change.authority.isNone then (audit.delete now c.authority.id).2
      else audit).current c.authority.id =
        if change.authority.isNone then [] else audit.current c.authority.id := by
    split
    · rw [AuditLog.current_delete, if_pos rfl]
    · rfl
  have hnext : (if change.authority.isNone then (audit.delete now c.authority.id).2
      else audit).nextId = audit.nextId := by
    split <;> rfl
  rw [recordsIn]
  split
  · rw [AuditLog.current_add, if_pos rfl, hmarked, hnext]
  · rw [hmarked, List.append_nil]

/-- A command that is recorded adds one record, after the deletion of the authority the only one. -/
theorem current_recordsIn (version : Nat) (now : Timestamp) (audit : AuditLog)
    (h : c.group = .user ∨ change.events.isEmpty = false) :
    ∃ r : CommandRecord, r.heading = c.heading ⟨c.authority.id, version⟩ ∧
      (c.recordsIn version change now audit).current c.authority.id =
        (if change.authority = none then [] else audit.current c.authority.id) ++ [r] := by
  have hrecorded : c.group = .user ∨ (!change.events.isEmpty) = true := by simpa using h
  refine ⟨AuditLog.recordOf audit.nextId now ⟨c.authority.id, version⟩ c
    (change.events.map AuthorityEvent.text), rfl,
    (c.current_recordsIn version change now audit).trans ?_⟩
  rw [if_pos hrecorded]
  cases change.authority <;> rfl

/-- The creation of an authority is not recorded. -/
theorem current_recordsIn_create (hgroup : c.group = .system)
    (h : change.events = []) (hauthority : change.authority ≠ none) :
    c.recordsIn version change now audit = audit := by
  rw [Command.recordsIn, if_neg]
  · simp [hauthority]
  · simp [hgroup, h]

end Log

/-! ### Following an authority -/

/-- **The life of an authority**, as its records tell it after a history. -/
inductive Followed (history : RunHistory) (w : World S) (id : AggregateId) : Prop
  | absent (get : w.store.get? id = none) (new : id ∉ created history)
      (said : headings id history = []) (current : w.audit.current id = [])
  | present {ca : CertificateAuthority} (get : w.store.get? id = some ca)
      (old : id ∈ created history)
      (kept : ∀ h ∈ headings id history, h.type ≠ .deleteCertificateAuthority)
      (versions : (w.audit.current id).map (fun r => r.authority.version) =
        List.range' 1 ca.version)
      (said : (w.audit.current id).map CommandRecord.heading = headings id history)
  | deleted {r : CommandRecord} {earlier : List Heading} (get : w.store.get? id = none)
      (old : id ∈ created history)
      (kept : ∀ h ∈ earlier, h.type ≠ .deleteCertificateAuthority)
      (said : headings id history = earlier ++ [r.heading])
      (current : w.audit.current id = [r])

/-- Only what is committed matters, and what the history says about the authority. -/
theorem Followed.congr {history history' : RunHistory} {w w' : World S} {id : AggregateId}
    (h : Followed history w id) (hget : w'.store.get? id = w.store.get? id)
    (hcurrent : w'.audit.current id = w.audit.current id)
    (hcreated : id ∈ created history' ↔ id ∈ created history)
    (hsaid : headings id history' = headings id history) : Followed history' w' id := by
  cases h with
  | absent get new said current =>
    exact .absent (hget.trans get) (fun h => new (hcreated.mp h)) (hsaid.trans said)
      (hcurrent.trans current)
  | present get old kept versions said =>
    exact .present (hget.trans get) (hcreated.mpr old) (hsaid ▸ kept) (hcurrent ▸ versions)
      (by rw [hcurrent, hsaid, said])
  | deleted get old kept said current =>
    exact .deleted (hget.trans get) (hcreated.mpr old) kept (hsaid.trans said)
      (hcurrent.trans current)

section Step

variable {history : RunHistory} {c : Command} {w w' : World S} {uuid : Uuid} {change : Change}

/-- **The creation of an authority** begins a life: nothing is recorded, and its version is zero. -/
theorem followed_create {v : VersionedId} {name : String}
    (hd : c.details = .createCertificateAuthority name)
    (hchange : change = ⟨some (CertificateAuthority.create c.authority.id name uuid), []⟩)
    (hw : Followed history w c.authority.id)
    (hget : w.store.get? c.authority.id = none)
    (honce : CreatedOnce (history ++ [(c, .ok ⟨true, v⟩)]))
    (haggregates : w'.store.aggregates = c.writes 0 change w.store.aggregates)
    (haudit : w'.audit = c.recordsIn 0 change w.now w.audit) :
    Followed (history ++ [(c, .ok ⟨true, v⟩)]) w' c.authority.id := by
  have htype : c.type = .createCertificateAuthority := by rw [Command.type, hd]; rfl
  have hcreated : created (history ++ [(c, .ok ⟨true, v⟩)]) =
      created history ++ [c.authority.id] := by
    rw [created_snoc, if_pos htype]
    rfl
  have hnew : c.authority.id ∉ created history := by
    rw [CreatedOnce, hcreated] at honce
    exact fun hin => (List.nodup_append.mp honce).2.2 _ hin _ List.mem_cons_self rfl
  cases hw with
  | present get => exact absurd (hget.symm.trans get).symm (Option.some_ne_none _)
  | deleted _ old => exact absurd old hnew
  | absent _ _ said current =>
    have hsaid : headings c.authority.id (history ++ [(c, .ok ⟨true, v⟩)]) = [] := by
      rw [headings_snoc, said, if_neg fun h => h.2 htype]
      rfl
    have hcurrent : w'.audit.current c.authority.id = [] := by
      rw [haudit, current_recordsIn_create (by rw [Command.group, htype]; rfl) (by rw [hchange])
        (by rw [hchange]; exact Option.some_ne_none _), current]
    have hput : w'.store.get? c.authority.id = some (Aggregate.withVersion 0
        (CertificateAuthority.create c.authority.id name uuid)) := by
      rw [Store.get?, haggregates, Command.find?_writes_self, hchange]
      rfl
    refine .present hput ?_ ?_ ?_ ?_
    · rw [hcreated]
      exact List.mem_append_right _ List.mem_cons_self
    · rw [hsaid]
      exact fun h hin => absurd hin List.not_mem_nil
    · rw [hcurrent]
      rfl
    · rw [hcurrent, hsaid]
      rfl

/-- **A change of an authority** adds one record of one version more, or ends its life. -/
theorem followed_change {ca : CertificateAuthority} (hchanges : c.Changes ca change)
    (hw : Followed history w c.authority.id)
    (hget : w.store.get? c.authority.id = some ca)
    (haggregates : w'.store.aggregates =
      c.writes (change.version (some ca)) change w.store.aggregates)
    (haudit : w'.audit = c.recordsIn (change.version (some ca)) change w.now w.audit) :
    Followed (history ++
      [(c, .ok ⟨true, ⟨c.authority.id, change.version (some ca)⟩⟩)]) w' c.authority.id := by
  obtain ⟨r, hr, hrecords⟩ :=
    current_recordsIn (change.version (some ca)) w.now w.audit hchanges.recorded
  rw [← haudit] at hrecords
  cases hw with
  | absent get => exact absurd (hget.symm.trans get) (Option.some_ne_none _)
  | deleted get => exact absurd (hget.symm.trans get) (Option.some_ne_none _)
  | @present ca' get old kept versions said =>
    obtain rfl : ca = ca' := Option.some.inj (hget.symm.trans get)
    have hsaid : headings c.authority.id (history ++
        [(c, .ok ⟨true, ⟨c.authority.id, change.version (some ca)⟩⟩)]) =
          headings c.authority.id history ++ [r.heading] := by
      rw [hr]
      exact headings_snoc_of_effect hchanges.type_ne_create rfl
    have hold := (created_snoc_of_type_ne (r := .ok ⟨true, ⟨c.authority.id,
      change.version (some ca)⟩⟩) hchanges.type_ne_create).symm ▸ old
    cases hauthority : change.authority with
    | none =>
      have hgone : w'.store.get? c.authority.id = none := by
        rw [Store.get?, haggregates, Command.find?_writes_self, hauthority]
        rfl
      refine .deleted hgone hold kept hsaid ?_
      rw [hrecords, if_pos hauthority, List.nil_append]
    | some changed =>
      have hversion : change.version (some ca) = ca.version + 1 := by
        simp [Change.version, hauthority]
      have hcurrent : w'.audit.current c.authority.id =
          w.audit.current c.authority.id ++ [r] := by
        rw [hrecords, if_neg (by rw [hauthority]; exact Option.some_ne_none _)]
      have hput : w'.store.get? c.authority.id =
          some (Aggregate.withVersion (ca.version + 1) changed) := by
        rw [Store.get?, haggregates, Command.find?_writes_self, hauthority, hversion]
        rfl
      refine .present hput hold ?_ ?_ ?_
      · rw [hsaid]
        intro h hin
        rcases List.mem_append.mp hin with hin | hin
        · exact kept h hin
        · rw [List.mem_singleton.mp hin, hr]
          exact fun hdelete => absurd (hchanges.authority_eq_none_iff.mpr hdelete)
            (by rw [hauthority]; exact Option.some_ne_none _)
      · -- the record carries the version that the commit writes
        have hlast : r.authority.version = ca.version + 1 := by
          rw [← hversion]
          exact congrArg (fun h => h.authority.version) hr
        rw [hcurrent, List.map_append, versions, List.map_cons, List.map_nil, hlast]
        show _ = List.range' 1 (ca.version + 1)
        rw [List.range'_1_concat, Nat.add_comm]
      · rw [hcurrent, List.map_append, said, hsaid]
        rfl

end Step

/-- **Every end of a command continues the lives of all authorities.** -/
theorem followed_outcome {history : RunHistory} {c : Command} {w w' : World S}
    {r : Except CommandError CommandStatus} (ho : c.Outcome w r w')
    (honce : CreatedOnce (history ++ [(c, r)])) (hw : ∀ id, Followed history w id)
    (id : AggregateId) : Followed (history ++ [(c, r)]) w' id := by
  have hnothing : effectOf r = none → w.SameCommitted w' → Followed (history ++ [(c, r)]) w' id :=
    fun hno hsame => (hw id).congr (hsame.get? id) (by rw [hsame.audit])
      (by rw [created_snoc_of_none hno]) (headings_snoc_of_none hno)
  cases ho with
  | failed same => exact hnothing rfl same
  | idle _ same => exact hnothing rfl same
  | @effective uuid change _ _ _ heffect haggregates haudit =>
    by_cases hid : id = c.authority.id
    · subst hid
      cases hfound : w.store.get? c.authority.id with
      | none =>
        rw [hfound] at heffect haggregates haudit honce
        obtain ⟨name, hd, hchange⟩ := Command.effect_none_eq_ok heffect
        exact followed_create hd hchange (hw _) hfound honce haggregates haudit
      | some ca =>
        rw [hfound] at heffect haggregates haudit
        exact followed_change (Command.effect_some_eq_ok heffect) (hw _) hfound haggregates haudit
    · -- the life of another authority goes on as it was
      refine (hw id).congr ?_ ?_ (mem_created_snoc_of_ne hid) (headings_snoc_of_ne hid)
      · rw [Store.get?, haggregates, Command.writes]
        split
        · exact OrdMap.find?_insert_of_ne _ hid _
        · exact OrdMap.find?_erase_of_ne _ hid
      · rw [haudit, current_recordsIn_of_ne hid]

/-- **A run is a collection of lives.** -/
theorem World.Ran.followed {filter : BgpFilter} {s : S} {history : RunHistory} {w : World S}
    (h : World.Ran (World.initial filter s) history w) (honce : CreatedOnce history)
    (id : AggregateId) : Followed history w id := by
  refine h.preserves (P := fun history w =>
    CreatedOnce history → ∀ id, Followed history w id) ?_ [] ?_ honce id
  · exact fun history u c r u' hu ho honce => followed_outcome ho honce (hu honce.init)
  · exact fun _ id => .absent rfl List.not_mem_nil rfl rfl

/-! ### Searching the log -/

/-- The versions after one of them. -/
theorem filter_range' (n v : Nat) :
    (List.range' 1 n).filter (fun x => v < x) = List.range' (v + 1) (n - v) := by
  induction n with
  | zero => simp
  | succ n ih =>
    rw [List.range'_1_concat, List.filter_append, ih]
    by_cases hv : v ≤ n
    · have hlt : v < 1 + n := by omega
      have hlast : v + 1 + (n - v) = 1 + n := by omega
      rw [Nat.succ_sub hv, List.range'_1_concat, hlast]
      simp [hlt]
    · have hlt : ¬v < 1 + n := by omega
      have hnone : n + 1 - v = 0 ∧ n - v = 0 := by omega
      rw [hnone.1, hnone.2]
      simp [hlt]

/-- **One record for each version.** After any run in which no authority is created twice: the
current records of an authority that is there are those of the commands with effect on it since
its creation, in order, and carry the versions from one up to its own; both searches of the log
find them. Of an authority that was deleted the only current record is that of its deletion. -/
theorem World.executeAll_recorded (outside : Outside X S) (settings : Settings) (levels : Nat)
    (filter : BgpFilter) (s : S) (commands : List Command) :
    ∃ results w, executeAll outside (Engine.standard settings) (levels + 2) commands
        (initial filter s) = some (results, w) ∧ results.length = commands.length ∧
      (CreatedOnce (commands.zip results) → ∀ id,
        (∀ ca, w.store.get? id = some ca →
          (w.audit.current id).map (fun r => r.authority.version) = List.range' 1 ca.version ∧
          (w.audit.current id).map CommandRecord.heading = headings id (commands.zip results) ∧
          (w.audit.recent id).map (fun r => r.authority.version) =
            (List.range' 1 ca.version).reverse.take AuditLog.maxRecent ∧
          ∀ v, (w.audit.since ⟨id, v⟩).map (fun r => r.authority.version) =
            List.range' (v + 1) (ca.version - v)) ∧
        ∀ p ∈ commands.zip results, p.1.authority.id = id →
          p.1.type = .deleteCertificateAuthority → ∀ v, effectOf p.2 = some v →
            w.store.get? id = none ∧
              ∃ r, w.audit.current id = [r] ∧ r.heading = p.1.heading v) := by
  obtain ⟨results, w, hrun, hlength, hran⟩ := executeAll_ran outside settings levels commands
    (initial filter s)
  refine ⟨results, w, hrun, hlength, fun honce id =>
    ⟨fun ca hget => ?_, fun p hp hid htype v hv => ?_⟩⟩
  · cases hran.followed honce id with
    | absent get => exact absurd (hget.symm.trans get) (Option.some_ne_none _)
    | deleted get => exact absurd (hget.symm.trans get) (Option.some_ne_none _)
    | present get _ _ versions said =>
      obtain rfl := Option.some.inj (hget.symm.trans get)
      refine ⟨versions, said, ?_, fun v => ?_⟩
      · rw [AuditLog.recent_eq, List.map_take, List.map_reverse, versions]
      · rw [AuditLog.since_eq, ← filter_range', ← versions, List.filter_map]
        rfl
  · have hin : p.1.heading v ∈ headings id (commands.zip results) := by
      refine List.mem_filterMap.mpr ⟨p, hp, ?_⟩
      rw [if_pos ⟨hid, by rw [htype]; exact nofun⟩, hv]
      rfl
    -- the deletion can only have been the last of its commands
    cases hran.followed honce id with
    | absent _ _ said => exact absurd (said ▸ hin) List.not_mem_nil
    | present _ _ kept => exact absurd htype (kept _ hin)
    | deleted get _ kept said current =>
      refine ⟨get, _, current, ?_⟩
      rcases List.mem_append.mp (said ▸ hin) with hearlier | hlast
      · exact absurd htype (kept _ hearlier)
      · exact (List.mem_singleton.mp hlast).symm

/-- An authority is created, and gets a certificate and a second one. A command in between has no
effect. -/
def World.twoCertificates : List Command :=
  [⟨⟨1, 0⟩, .system, .createCertificateAuthority "authority"⟩,
    ⟨⟨1, 0⟩, .system, .updateIncomingCertificate "first" ⟨[⟨64496, 64511⟩], [], []⟩⟩,
    ⟨⟨1, 1⟩, .system, .revokeIncomingCertificate "second"⟩,
    ⟨⟨1, 1⟩, .system, .updateIncomingCertificate "second" ⟨[⟨65536, 65551⟩], [], []⟩⟩]

theorem World.executeAll_recorded_twoCertificates :
    ∃ results w, executeAll Outside.none (Engine.standard .standard) 2 twoCertificates
        (initial .standard ()) = some (results, w) ∧
      (w.audit.current 1).map (fun r => r.authority.version) = [1, 2] ∧
      (w.audit.since ⟨1, 1⟩).map (fun r => r.authority.version) = [2] := by
  have hcompute : (executeAll Outside.none (Engine.standard .standard) 2 twoCertificates
      (initial .standard ())).map (fun q =>
        (created (twoCertificates.zip q.1), (q.2.store.get? 1).map CertificateAuthority.version)) =
          some ([1], some 2) := by
    decide +kernel
  obtain ⟨results, w, hrun, -, hall⟩ :=
    executeAll_recorded Outside.none .standard 0 .standard () twoCertificates
  rw [hrun, Option.map_some] at hcompute
  obtain ⟨hcreated, hversion⟩ := Prod.mk.inj (Option.some.inj hcompute)
  obtain ⟨ca, hget, hca⟩ := Option.map_eq_some_iff.mp hversion
  obtain ⟨hversions, -, -, hsince⟩ := (hall (by rw [CreatedOnce, hcreated]; decide) 1).1 ca hget
  rw [hca] at hversions hsince
  exact ⟨results, w, hrun, hversions, hsince 1⟩

end RpkiAuthority
