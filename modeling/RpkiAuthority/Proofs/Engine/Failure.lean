import RpkiAuthority.Proofs.Engine.Executed
import RpkiAuthority.Proofs.Engine.Levels
import RpkiAuthority.Proofs.Engine.Settled

/-!
# Commands without effect leave nothing behind

A command that fails, or finds nothing to do, is as good as one that was never sent: the committed
authorities with their versions, the audit log with its marks and the lock table are the same as
before. For failures this holds with any handlers and listeners, wherever in them, in a command
inside of the command, in the commit or in a later attempt things went wrong. That a command which
reports no effect had none is up to its handler, and holds for those of this library.

Handlers can also fail because of changes behind their back, made by what is outside of the
engine. Then these changes are all that changed.
-/

namespace RpkiAuthority

variable {X : Interface} {S : Type} {outside : Outside X S}

namespace Engine

open World

/-- The handlers and listeners are those of this library. -/
def IsStandard (e : Engine X) : Prop :=
  e.handlers = Handlers.standard ∧ e.listeners = Maintenance.standard

theorem IsStandard.eq {e : Engine X} (h : e.IsStandard) : e = standard e.settings := by
  obtain ⟨settings, handlers, listeners⟩ := e
  obtain ⟨rfl, rfl⟩ := h
  rfl

variable {e : Engine X} {levels : Nat} {c : Command} {w w' : World S}
  {r : Except CommandError CommandStatus}

/-- Whatever the levels, an execution comes to one of the three ends if it comes to an end. -/
theorem IsStandard.outcome (he : e.IsStandard)
    (h : World.execute outside e levels c w = some (r, w')) : c.Outcome w r w' := by
  rw [he.eq] at h
  obtain ⟨r₁, w₁, h₁, ho⟩ := execute_outcome outside e.settings levels c w
  -- with two levels more the end is known, and it is the same end
  obtain ⟨rfl, rfl⟩ : r₁ = r ∧ w₁ = w' := by
    have heq := h₁.symm.trans (execute_mono (Nat.le_add_right levels 2) h)
    exact Prod.mk.inj (Option.some.inj heq)
  exact ho

/-- A command fails, or the handlers of this library report that it has no effect. -/
def EndsWithoutEffect (e : Engine X) (r : Except CommandError CommandStatus) : Prop :=
  (∃ err, r = .error err) ∨ e.IsStandard ∧ ∃ status, r = .ok status ∧ status.hasEffect = false

/-- The handlers of this library have no part in anything outside. -/
theorem IsStandard.sameCommitted (he : e.IsStandard)
    (h : World.execute outside e levels c w = some (r, w')) (hr : e.EndsWithoutEffect r) :
    SameCommitted w w' := by
  have ho := he.outcome h
  cases ho with
  | failed same => exact same
  | idle _ same => exact same
  | effective =>
    rcases hr with ⟨err, herr⟩ | ⟨-, status, hstatus, hno⟩
    · exact absurd herr (by simp)
    · obtain rfl := Except.ok.inj hstatus
      exact absurd hno (by simp)

/-- **A command without effect leaves nothing behind.** Nothing but the outside changed what is
committed, and nothing at all where the outside is separate from the store or the handlers are those
of this library; the lock table is the one that was found, so none of the transactions begun since
holds a lock. -/
theorem execute_leaves_nothing (hout : outside.Orderly) (hw : Reachable outside w)
    (h : World.execute outside e levels c w = some (r, w')) (hr : e.EndsWithoutEffect r) :
    OnlyOutside outside w w' ∧
      (outside.Separate ∨ e.IsStandard →
        w'.store.aggregates = w.store.aggregates ∧ w'.audit = w.audit) ∧
      w'.store.locks = w.store.locks ∧
      ∀ id tx mode, w.store.nextTx ≤ tx → w'.store.locks.holds id tx mode = false := by
  obtain ⟨hsettled, herror⟩ := execute_leaves hout e levels c hw h
  have hcommitted : OnlyOutside outside w w' := by
    rcases hr with ⟨err, herr⟩ | ⟨he, hno⟩
    · exact herror err herr
    · have hsame := he.sameCommitted h (Or.inr ⟨he, hno⟩)
      exact .of_eq (by rw [committed, hsame.aggregates, hsame.audit, committed])
  refine ⟨hcommitted, ?_, hsettled.locks, fun id tx mode htx => ?_⟩
  · rintro (hsep | he)
    · exact Prod.mk.inj (hcommitted.eq_of_separate hsep)
    · have hsame := he.sameCommitted h hr
      exact ⟨hsame.aggregates, hsame.audit⟩
  · rw [hsettled.locks]
    exact (hw.tidy hout).holds_eq_false htx id mode

/-! ### A commit that fails -/

/-- Handlers that change the authority, and then have it changed behind their backs. -/
def interfering : Engine scriptInterface where
  settings := .standard
  handlers _ := Script.handler 0 [⟨.markUpdated, none, none⟩, ⟨.interfere false, none, none⟩]
  listeners := []

/-- A world with nothing in it but a transaction that has begun. -/
def begun : World ScriptState :=
  { World.initial .standard ⟨[], OrdMap.empty⟩ with store := Store.empty.begin.2 }

/-- The world in which this transaction has created an authority. -/
def withAuthority : World ScriptState :=
  begun.written (.new 1) 1 (.changed none (.create 1 "authority" (Uuid.ofNat 0))) [] []

theorem reachable_withAuthority : Reachable Script.answer withAuthority := by
  have hbegun : Reachable Script.answer begun :=
    (Reachable.initial .standard ⟨[], OrdMap.empty⟩).step (q := .start) rfl trivial
  exact hbegun.step (step_commit_ok (commit_setEntry rfl rfl [] [])) trivial

/-- In every attempt the commit meets a conflict, and in the end the command is given up. The
changes made behind the back of the command are all that is left. -/
theorem execute_leaves_nothing_interfering :
    ∃ err w', World.execute Script.answer interfering 1
        ⟨⟨1, 0⟩, Actor.user "alice", .deleteCertificateAuthority⟩ withAuthority =
          some (.error err, w') ∧
      OnlyOutside Script.answer withAuthority w' ∧ w'.audit.records = [] ∧
      w'.store.version? 1 = some 3 ∧ w'.store.locks = OrdMap.empty := by
  have hresult : ((World.execute Script.answer interfering 1
      ⟨⟨1, 0⟩, Actor.user "alice", .deleteCertificateAuthority⟩ withAuthority).map fun p =>
        (p.1.isOk, p.2.audit.records, p.2.store.version? 1)) = some (false, [], some 3) := by
    decide +kernel
  cases h : World.execute Script.answer interfering 1
      ⟨⟨1, 0⟩, Actor.user "alice", .deleteCertificateAuthority⟩ withAuthority with
  | none => rw [h] at hresult; exact absurd hresult (by simp)
  | some p =>
    obtain ⟨r, w'⟩ := p
    rw [h] at hresult
    obtain ⟨hr, hrecords, hversion⟩ : r.isOk = false ∧ w'.audit.records = [] ∧
        w'.store.version? 1 = some 3 := by simpa using hresult
    cases r with
    | ok status => exact absurd hr (by simp [Except.isOk, Except.toBool])
    | error err =>
      obtain ⟨honly, -, hlocks, -⟩ := execute_leaves_nothing Outside.orderly_script
        reachable_withAuthority h (Or.inl ⟨err, rfl⟩)
      exact ⟨err, w', rfl, honly, hrecords, hversion, hlocks⟩

end Engine

end RpkiAuthority
