import RpkiAuthority.Proofs.Concurrent.Execution

/-!
# What a transaction holds

While a transaction holds the exclusive lock on an authority, it can rely on two things: it goes on
holding the lock, and the committed authority stays what it is (`World.Spares`). Others see to this,
each in the steps that it takes: they take and release locks in their own name only, and write only
what they hold themselves (`World.Regards`). One step that has regard for a transaction spares it
(`World.Regards.spares`); this is all that has to be known of the lock table.
-/

namespace RpkiAuthority

variable {X : Interface} {S : Type} {outside : Outside X S}

/-! ### What others leave alone -/

namespace World

/-- **A transaction holds an authority**: it has the exclusive lock on it. -/
def HeldBy (w : World S) (n : TxId) (id : AggregateId) : Prop :=
  w.store.locks.holds id n .exclusive = true

/-- **A transaction is spared**: what it held it holds, and that is as it was committed. -/
def Spares (n : TxId) (w w' : World S) : Prop :=
  ∀ id, w.HeldBy n id → w'.HeldBy n id ∧ w'.store.get? id = w.store.get? id

theorem Spares.refl (n : TxId) (w : World S) : Spares n w w := fun _ h => ⟨h, rfl⟩

theorem Spares.trans {n : TxId} {u w w' : World S} (h : Spares n u w) (h' : Spares n w w') :
    Spares n u w' := fun id hold => by
  obtain ⟨hold', hget⟩ := h id hold
  obtain ⟨hold'', hget'⟩ := h' id hold'
  exact ⟨hold'', hget'.trans hget⟩

theorem Spares.of_same {n : TxId} {w w' : World S} (hlocks : w'.store.locks = w.store.locks)
    (haggregates : w'.store.aggregates = w.store.aggregates) : Spares n w w' := fun id hold =>
  ⟨by rw [HeldBy, hlocks]; exact hold, by rw [Store.get?, haggregates, Store.get?]⟩

/-- A transaction writes what it holds and nothing else. -/
def WritesHeld (w : World S) (tx : Transaction CertificateAuthority) : Prop :=
  ∀ id e, tx.entries.find? id = some e → e.hasChanges = true → w.HeldBy tx.id id

/-- **A step has regard for a transaction**: it takes or releases no lock in its name, and writes
nothing that the one who takes the step does not hold. -/
def Regards (w : World S) (n : TxId) : SharedQuery X → Prop
  | .acquire tx _ _ | .release tx => tx ≠ n
  | .commit tx _ _ => tx.id ≠ n ∧ w.WritesHeld tx
  | .outside _ => False
  | _ => True

variable {w w' : World S} {n : TxId}

/-- An authority is held by one transaction. -/
theorem HeldBy.eq {m : TxId} {id : AggregateId} (h : w.HeldBy n id) (h' : w.HeldBy m id) : n = m :=
  Option.some.inj <|
    (Holders.holds_exclusive_iff.mp h).symm.trans (Holders.holds_exclusive_iff.mp h')

/-- What is not changed by a transaction is not written. -/
theorem get?_of_commit_of_not_held {tx : Transaction CertificateAuthority}
    {deletions : List AggregateId} {records : List PendingRecord} {id : AggregateId}
    (hcommit : w.commit tx deletions records = .ok w') (hwrites : w.WritesHeld tx)
    (hid : ¬w.HeldBy tx.id id) : w'.store.get? id = w.store.get? id := by
  obtain ⟨versions, hstore, -⟩ := commit_eq_ok hcommit
  rw [Store.get?_of_commit hstore id]
  cases hfind : tx.entries.find? id with
  | none => rfl
  | some e =>
    have hsame : e.hasChanges = false :=
      Bool.eq_false_iff.mpr fun hchanges => hid (hwrites id e hfind hchanges)
    rw [Option.filter_some, hsame]
    rfl

/-- **A step with regard for a transaction spares it.** -/
theorem Regards.spares {q : SharedQuery X} {r : (sharedInterface X).Reply q}
    (h : w.Regards n q) (taken : step outside q w = some (r, w')) : Spares n w w' := by
  have heffect := stepEffect_of_step taken
  cases q with
  | start =>
    obtain rfl : w' = _ := heffect
    exact .of_same rfl rfl
  | acquire tx id mode =>
    rcases heffect with rfl | ⟨locks, hlocks, rfl⟩
    · exact .refl n w'
    · exact fun q hold => ⟨(LockTable.holds_acquire hlocks).mpr (Or.inl hold), rfl⟩
  | commit tx deletions records =>
    rcases heffect with rfl | hcommit
    · exact .refl n w'
    · intro id hold
      refine ⟨by rw [HeldBy, (commit_locks hcommit).1]; exact hold, ?_⟩
      exact get?_of_commit_of_not_held hcommit h.2 fun hheld => h.1 (hheld.eq hold)
  | release tx =>
    obtain rfl : w' = _ := heffect
    exact fun q hold => ⟨LockTable.holds_releaseAll.mpr ⟨hold, Ne.symm h⟩, rfl⟩
  | outside q => exact h.elim
  | read | recordsSince | log | measure | draw | freshUuid | announcements | stuck =>
    exact .of_same (by rw [heffect.1]) (by rw [heffect.1])

/-- Transactions are numbered through. -/
theorem nextTx_le_of_step {q : SharedQuery X} {r : (sharedInterface X).Reply q}
    (hq : ∀ q', q ≠ .outside q') (taken : step outside q w = some (r, w')) :
    w.store.nextTx ≤ w'.store.nextTx := by
  have heffect := stepEffect_of_step taken
  cases q with
  | start =>
    obtain rfl : w' = _ := heffect
    exact Nat.le_succ _
  | acquire tx id mode =>
    rcases heffect with rfl | ⟨locks, -, rfl⟩ <;> exact Nat.le_refl _
  | commit tx deletions records =>
    rcases heffect with rfl | hcommit
    · exact Nat.le_refl _
    · exact Nat.le_of_eq (commit_locks hcommit).2.symm
  | release tx =>
    obtain rfl : w' = _ := heffect
    exact Nat.le_refl _
  | outside q => exact absurd rfl (hq q)
  | read | recordsSince | log | measure | draw | freshUuid | announcements | stuck =>
    exact Nat.le_of_eq (by rw [heffect.1])

end World

end RpkiAuthority
