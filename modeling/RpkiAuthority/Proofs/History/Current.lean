import RpkiAuthority.History.Audit

/-!
# The records of an authority

The audit log is one list, but it is made of histories that have nothing to do with each other: one
for each authority, of the records about it (`AuditLog.about`). A new record goes to the end of the
history of its authority, and a deletion marks records of the one deleted.

Every question to the log is about the **current** records of one authority, those that are not
marked (`AuditLog.current`). Both searches are read off this list (`AuditLog.recent_eq`,
`AuditLog.since_eq`), and a deletion empties it.
-/

namespace RpkiAuthority.AuditLog

/-- **The records about an authority**, the oldest first. Those marked as deleted are among them. -/
def about (log : AuditLog) (id : AggregateId) : List CommandRecord :=
  log.records.filter fun r => r.authority.id == id

/-- The records about an authority that are not marked as deleted, the oldest first. -/
def current (log : AuditLog) (id : AggregateId) : List CommandRecord :=
  log.records.filter (isCurrent id)

variable (log : AuditLog) (id : AggregateId)

theorem current_eq : log.current id = (log.about id).filter fun r => !r.isDeleted := by
  rw [current, about, List.filter_filter]
  refine List.filter_congr fun r _ => ?_
  rw [isCurrent, Bool.and_comm]

/-- The most recent records are the last of the current ones, backwards. -/
theorem recent_eq : log.recent id = (log.current id).reverse.take maxRecent := by
  rw [recent, current, List.filter_reverse]

/-- The records since a version are the current ones of later versions. -/
theorem since_eq (v : VersionedId) :
    log.since v = (log.current v.id).filter fun r => v.version < r.authority.version := by
  rw [since, current, List.filter_filter]
  refine List.filter_congr fun r _ => ?_
  rw [Bool.and_comm]

/-- What is looked at in each record to find those since a version. -/
theorem since_eq_filter (v : VersionedId) :
    log.since v = log.records.filter fun r =>
      r.authority.id = v.id ∧ r.deletedAt = none ∧ v.version < r.authority.version := by
  refine List.filter_congr fun r _ => ?_
  rw [Bool.eq_iff_iff]
  cases hmark : r.deletedAt <;> simp [isCurrent, CommandRecord.isDeleted, hmark]

/-! ### Changes of the log -/

/-- A new record is the last one of its authority. -/
theorem about_add (now : Timestamp) (authority : VersionedId) (c : Command)
    (events : List String) :
    (log.add now authority c events).2.about id =
      log.about id ++
        if authority.id = id then [recordOf log.nextId now authority c events] else [] := by
  show (log.records ++ [recordOf log.nextId now authority c events]).filter _ = _
  rw [List.filter_append, List.filter_cons, List.filter_nil, about]
  by_cases h : authority.id = id <;> simp [recordOf, h]

/-- A new record is current. -/
theorem current_add (now : Timestamp) (authority : VersionedId) (c : Command)
    (events : List String) :
    (log.add now authority c events).2.current id =
      log.current id ++
        if authority.id = id then [recordOf log.nextId now authority c events] else [] := by
  rw [current_eq, about_add, List.filter_append, ← current_eq]
  split <;> rfl

/-- A deletion marks what is current, and moves nothing. -/
theorem about_delete (now : Timestamp) (deleted : AggregateId) :
    (log.delete now deleted).2.about id = (log.about id).map fun r =>
      if isCurrent deleted r then { r with deletedAt := some now } else r := by
  show (log.records.map _).filter _ = _
  rw [List.filter_map, about]
  refine congrArg (List.map _) (List.filter_congr fun r _ => ?_)
  rw [Function.comp_apply]
  split <;> rfl

/-- **A deletion marks records of the authority deleted, and no others.** -/
theorem about_delete_of_ne (now : Timestamp) {deleted : AggregateId} (h : id ≠ deleted) :
    (log.delete now deleted).2.about id = log.about id := by
  rw [about_delete]
  refine (List.map_congr_left (g := fun r => r) fun r hr => ?_).trans (List.map_id' _)
  have hid : r.authority.id = id := beq_iff_eq.mp (List.mem_filter.mp hr).2
  refine if_neg fun hcurrent => h ?_
  rw [isCurrent, Bool.and_eq_true, beq_iff_eq] at hcurrent
  exact hid.symm.trans hcurrent.1

/-- **A deletion empties the list** of the authority deleted, and no other. -/
theorem current_delete (now : Timestamp) (deleted : AggregateId) :
    (log.delete now deleted).2.current id = if id = deleted then [] else log.current id := by
  rw [current_eq]
  split
  · next h =>
    subst h
    rw [about_delete, List.filter_eq_nil_iff]
    intro _ hmarked
    obtain ⟨r, hr, rfl⟩ := List.mem_map.mp hmarked
    -- what was not current before was marked already
    have habout := (List.mem_filter.mp hr).2
    by_cases hcurrent : isCurrent id r = true
    · simp [hcurrent, CommandRecord.isDeleted]
    · rw [if_neg hcurrent]
      simpa [isCurrent, habout] using hcurrent
  · next h => rw [log.about_delete_of_ne id now h, ← current_eq]

end RpkiAuthority.AuditLog
