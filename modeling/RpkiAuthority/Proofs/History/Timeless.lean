import RpkiAuthority.Proofs.Engine.Executed

/-!
# The audit log without its times

The clock decides when a command was executed and when its record was marked as deleted, and nothing
else: the log with all times taken out (`AuditLog.timeless`) goes through the same changes whatever
the clock shows, and finds the same records. So what a command does does not depend on times
(`Command.stale_eq_none_of_timeless`), and what it leaves depends on them in the times alone
(`Command.timeless_recordsIn`).
-/

namespace RpkiAuthority

/-- The record with the times taken out. It still says whether it is marked as deleted. -/
def CommandRecord.timeless (r : CommandRecord) : CommandRecord :=
  { r with executedAt := .epoch, deletedAt := r.deletedAt.map fun _ => .epoch }

namespace AuditLog

/-- The log with the times taken out. -/
def timeless (log : AuditLog) : AuditLog := { log with records := log.records.map .timeless }

theorem isCurrent_timeless (id : AggregateId) (r : CommandRecord) :
    isCurrent id r.timeless = isCurrent id r := by
  rw [isCurrent, isCurrent, CommandRecord.isDeleted, CommandRecord.isDeleted,
    CommandRecord.timeless, Option.isSome_map]

theorem timeless_add (log : AuditLog) (now : Timestamp) (authority : VersionedId) (c : Command)
    (events : List String) :
    (log.add now authority c events).2.timeless =
      (log.timeless.add .epoch authority c events).2 := by
  simp only [timeless, add, List.map_append]
  rfl

theorem timeless_delete (log : AuditLog) (now : Timestamp) (id : AggregateId) :
    (log.delete now id).2.timeless = (log.timeless.delete .epoch id).2 := by
  simp only [timeless, delete, List.map_map]
  congr 1
  refine List.map_congr_left fun r _ => ?_
  simp only [Function.comp_apply, isCurrent_timeless]
  split <;> rfl

theorem timeless_since (log : AuditLog) (v : VersionedId) :
    (log.since v).map .timeless = log.timeless.since v := by
  simp only [since, timeless, List.filter_map]
  congr 1
  refine List.filter_congr fun r _ => ?_
  rw [Function.comp_apply, isCurrent_timeless]
  rfl

end AuditLog

namespace Command

variable {c : Command}

/-- What a command does to the log without times. -/
theorem timeless_recordsIn (c : Command) (version : Nat) (change : Change) (now : Timestamp)
    (audit : AuditLog) : (c.recordsIn version change now audit).timeless =
      c.recordsIn version change .epoch audit.timeless := by
  have hmarked : (if change.authority.isNone then (audit.delete now c.authority.id).2
      else audit).timeless =
        if change.authority.isNone then (audit.timeless.delete .epoch c.authority.id).2
        else audit.timeless := by
    split
    · exact audit.timeless_delete now c.authority.id
    · rfl
  rw [recordsIn, recordsIn]
  split
  · rw [AuditLog.timeless_add, hmarked]
  · exact hmarked

/-- Whether there is a conflict does not depend on when it came about. -/
theorem conflict_eq_none_iff (c : Command) (ca : CertificateAuthority)
    (records : List CommandRecord) :
    c.conflict ca records = none ↔ ∀ r ∈ records, r.group ≠ .user := by
  rw [conflict]
  split
  · next h => simpa using h
  · next h => simpa using h

variable {S S' : Type} {w : World S} {w' : World S'}

/-- **Whether a command is stale does not depend on times.** -/
theorem stale_eq_none_of_timeless
    (hget : w'.store.get? c.authority.id = w.store.get? c.authority.id)
    (haudit : w'.audit.timeless = w.audit.timeless) (h : c.stale w = none) : c.stale w' = none := by
  rw [stale] at h ⊢
  by_cases hgroup : c.group = .system
  · exact if_pos hgroup
  · rw [if_neg hgroup] at h ⊢
    rw [hget]
    cases hfound : w.store.get? c.authority.id with
    | none => rfl
    | some ca =>
      rw [hfound] at h
      dsimp only at h ⊢
      split at h
      · next hnew => exact if_pos hnew
      · next hold =>
        rw [conflict_eq_none_iff] at h
        rw [if_neg hold, conflict_eq_none_iff]
        have hsince : (w'.audit.since c.authority).map CommandRecord.timeless =
            (w.audit.since c.authority).map CommandRecord.timeless := by
          rw [AuditLog.timeless_since, AuditLog.timeless_since, haudit]
        intro r hr
        have htimeless : r.timeless ∈ (w.audit.since c.authority).map CommandRecord.timeless :=
          hsince ▸ List.mem_map_of_mem hr
        obtain ⟨r', hr', heq⟩ := List.mem_map.mp htimeless
        have hgroup : r'.timeless.group = r.timeless.group := by rw [heq]
        exact fun huser => h r' hr' (hgroup.trans huser)

end Command

end RpkiAuthority
