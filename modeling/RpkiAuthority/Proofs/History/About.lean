import RpkiAuthority.Proofs.History.Current
import RpkiAuthority.Proofs.History.Timeless

/-!
# All that was recorded about an authority

What is recorded of a command, and what it marks, is among the records about its authority and no
other (`Command.about_recordsIn_of_ne`). And what it adds to them depends on nothing but the clock,
the number that the record gets in the log and the **history** of the authority
(`AuditLog.history`): the records about it without their numbers and times
(`Command.history_recordsIn`).
-/

namespace RpkiAuthority

/-- The record without its number in the log and without times. -/
def CommandRecord.bare (r : CommandRecord) : CommandRecord := { r.timeless with id := 0 }

namespace AuditLog

/-- The history of an authority: what was recorded about it, without numbers and times. -/
def history (log : AuditLog) (id : AggregateId) : List CommandRecord :=
  (log.about id).map .bare

variable (log : AuditLog) (id : AggregateId)

/-- Marking the history of an authority. -/
theorem history_delete (now : Timestamp) :
    (log.delete now id).2.history id = (log.history id).map fun r =>
      if isCurrent id r then { r with deletedAt := some .epoch } else r := by
  rw [history, about_delete, history, List.map_map, List.map_map]
  refine List.map_congr_left fun r _ => ?_
  have hcurrent : isCurrent id r.bare = isCurrent id r := isCurrent_timeless id r
  rw [Function.comp_apply, Function.comp_apply, hcurrent]
  split <;> rfl

end AuditLog

namespace Command

variable (c : Command) (version : Nat) (change : Change) (now : Timestamp) (audit : AuditLog)

/-- **What is recorded of a command has nothing to do with other authorities.** -/
theorem about_recordsIn_of_ne {id : AggregateId} (h : id ≠ c.authority.id) :
    (c.recordsIn version change now audit).about id = audit.about id := by
  have hmarked : (if change.authority.isNone then (audit.delete now c.authority.id).2
      else audit).about id = audit.about id := by
    split
    · exact audit.about_delete_of_ne id now h
    · rfl
  rw [recordsIn]
  split
  · rw [AuditLog.about_add, if_neg (Ne.symm h), List.append_nil, hmarked]
  · exact hmarked

/-- **What is recorded of a command depends on the history of its authority** and on nothing
else. -/
theorem history_recordsIn :
    (c.recordsIn version change now audit).history c.authority.id =
      (if change.authority.isNone then
        (audit.history c.authority.id).map fun r =>
          if AuditLog.isCurrent c.authority.id r then { r with deletedAt := some .epoch } else r
      else audit.history c.authority.id) ++
        if c.group = .user ∨ !change.events.isEmpty then
          [AuditLog.recordOf 0 .epoch ⟨c.authority.id, version⟩ c
            (change.events.map AuthorityEvent.text)]
        else [] := by
  have hmarked : (if change.authority.isNone then (audit.delete now c.authority.id).2
      else audit).history c.authority.id =
        if change.authority.isNone then
          (audit.history c.authority.id).map fun r =>
            if AuditLog.isCurrent c.authority.id r then { r with deletedAt := some .epoch } else r
        else audit.history c.authority.id := by
    split
    · exact audit.history_delete c.authority.id now
    · rfl
  rw [recordsIn]
  split
  · rw [AuditLog.history, AuditLog.about_add, if_pos rfl, List.map_append, ← AuditLog.history,
      hmarked]
    rfl
  · rw [hmarked, List.append_nil]

end Command

end RpkiAuthority
