import RpkiAuthority.Proofs.Engine.Steps

/-!
# What the engine does by itself

Handlers and listeners may ask for something outside of the engine, and what is asked there can do
anything to the audit log. Those of this library do not ask (`Engine.only_own_standard`). As long
as nothing outside is asked, the audit log is changed by commits only (`World.audit_of_runAlone`).
-/

namespace RpkiAuthority

variable {X : Interface} {S α β : Type} {outside : Outside X S}

namespace SharedQuery

/-- Whether a step is taken by the engine itself. -/
def IsOwn : SharedQuery X → Prop
  | .outside _ => False
  | _ => True

/-- Whether a step leaves the audit log alone. -/
def KeepsAudit : SharedQuery X → Prop
  | .outside _ | .commit _ _ _ => False
  | _ => True

theorem KeepsAudit.isOwn {q : SharedQuery X} (h : q.KeepsAudit) : q.IsOwn := by
  cases q with
  | outside q => exact h
  | _ => trivial

/-- Running commands do not commit. -/
theorem keepsAudit_of_isCommandStep {q : SharedQuery X} (hcommand : q.IsCommandStep)
    (hown : q.IsOwn) : q.KeepsAudit := by
  cases q with
  | outside q => exact hown
  | commit tx deletions records => exact hcommand
  | _ => trivial

end SharedQuery

open SharedQuery

namespace Process

variable {P Q : SharedQuery X → Prop} {p : Process X α}

theorem Only.and (hp : Only P p) (hq : Only Q p) : Only (fun q => P q ∧ Q q) p := by
  induction p with
  | done a => trivial
  | ask q next ih => exact ⟨⟨hp.1, hq.1⟩, fun r => ih r (hp.2 r) (hq.2 r)⟩

/-- What comes first takes the steps of the whole only. -/
theorem Only.of_bind {f : α → Process X β} (h : Only P (p >>= f)) : Only P p := by
  induction p with
  | done a => trivial
  | ask q next ih => exact ⟨h.1, fun r => ih r (h.2 r)⟩

end Process

/-! ### The audit log -/

namespace World

variable {w w' : World S}

theorem audit_of_step {q : SharedQuery X} {r : (sharedInterface X).Reply q} (hq : q.KeepsAudit)
    (h : step outside q w = some (r, w')) : w'.audit = w.audit := by
  have heffect := stepEffect_of_step h
  cases q with
  | outside q => exact hq.elim
  | commit tx deletions records => exact hq.elim
  | start =>
    obtain rfl := heffect
    rfl
  | release tx =>
    obtain rfl := heffect
    rfl
  | acquire tx id mode =>
    rcases heffect with rfl | ⟨locks, -, rfl⟩ <;> rfl
  | _ => exact heffect.2

/-- **The audit log is changed by commits only**, and by what is asked outside. -/
theorem audit_of_runAlone {p : Process X α} {a : α} (hp : p.Only KeepsAudit)
    (h : runAlone outside p w = some (a, w')) : w'.audit = w.audit := by
  induction p generalizing w with
  | done b =>
    obtain ⟨-, rfl⟩ := Prod.mk.inj (Option.some.inj h)
    rfl
  | ask q next ih =>
    have hask : runAlone outside (Dialogue.ask q next) w =
        (step outside q w).bind fun p => runAlone outside (next p.1) p.2 := rfl
    rw [hask, Option.bind_eq_some_iff] at h
    obtain ⟨⟨r, u⟩, hstep, hrest⟩ := h
    exact (ih r (hp.2 r) hrest).trans (audit_of_step hp.1 hstep)

end World

/-! ### Courses -/

open Process

theorem only_keepsAudit_giveBack (tx : TxId) (err : CommandError) :
    Only (X := X) KeepsAudit (giveBack tx err) :=
  (only_step trivial).bind fun _ => trivial

theorem only_own_giveBack (tx : TxId) (err : CommandError) :
    Only (X := X) IsOwn (giveBack tx err) :=
  (only_keepsAudit_giveBack tx err).mono fun _ h => h.isOwn

theorem only_keepsAudit_givenUp (c : Command) :
    Only (X := X) KeepsAudit (Engine.givenUp c) :=
  (only_step trivial).bind fun _ => (only_step trivial).bind fun _ => trivial

theorem only_own_conclude (tx : Transaction CertificateAuthority)
    (deletions : List AggregateId) (records : List PendingRecord) (status : CommandStatus) :
    Only (X := X) IsOwn (conclude tx deletions records status) := by
  refine (only_step trivial).bind fun committed => (only_step trivial).bind fun _ => ?_
  cases committed <;> trivial

theorem only_own_say (context : LogContext) (lines : List (LogLevel × String)) :
    Only (X := X) IsOwn (say context lines) := by
  induction lines with
  | nil => trivial
  | cons line rest ih => exact (only_step trivial).bind fun _ => ih

namespace Command

variable (c : Command)

theorem only_own_admission : Only (X := X) IsOwn c.admission := by
  rw [admission]
  split
  · trivial
  · refine (only_step trivial).bind fun found => Only.bind ?_ fun _ => trivial
    cases found with
    | none => trivial
    | some ca =>
      rw [staleness]
      split
      · trivial
      · exact (only_step trivial).bind fun _ => trivial

theorem only_own_finalVersion (entry : Entry CertificateAuthority) :
    Only (X := X) IsOwn (c.finalVersion entry) := by
  rw [finalVersion]
  split
  · trivial
  · refine (only_step trivial).bind fun found => ?_
    cases found <;> trivial

theorem only_own_settle (tx : Transaction CertificateAuthority)
    (found : Option CertificateAuthority) (outcome : Except CommandError Change) :
    Only (X := X) IsOwn (c.settle tx found outcome) := by
  rw [settle.eq_def]
  split
  · exact (c.only_own_finalVersion _).bind fun _ => only_own_conclude _ _ _ _
  · exact only_own_giveBack _ _
  · exact (c.only_own_finalVersion _).bind fun _ => only_own_conclude _ _ _ _

theorem only_own_critical (tx : Transaction CertificateAuthority)
    (seen : Option (Option CertificateAuthority)) :
    Only (X := X) IsOwn (c.critical tx seen) := by
  refine (only_step trivial).bind fun granted => ?_
  cases granted with
  | error err => exact only_own_giveBack _ _
  | ok _ =>
    have hdraw : Only (X := X) IsOwn c.drawUuid := by
      unfold drawUuid
      cases c.details with
      | createCertificateAuthority name => exact only_step trivial
      | _ => trivial
    have hlookUp : Only (X := X) IsOwn (lookUp c.authority.id seen) := by
      cases seen with
      | none => exact only_step trivial
      | some found => trivial
    exact hdraw.bind fun uuid => hlookUp.bind fun found =>
      (only_own_say _ _).bind fun _ => c.only_own_settle tx found _

/-- **A course asks for nothing outside.** -/
theorem only_own_course (tx : Transaction CertificateAuthority) :
    Only (X := X) IsOwn (c.course tx) := by
  refine c.only_own_admission.bind fun p => ?_
  split
  · exact only_own_giveBack _ _
  · exact c.only_own_critical tx p.2

end Command

/-- **Commands run with the handlers and listeners of this library ask for nothing outside.** -/
theorem Engine.only_own_standard (settings : Settings) (levels : Nat) (c : Command)
    {tx : Transaction CertificateAuthority} (htx : tx.entries = OrdMap.empty) :
    Only IsOwn ((((standard (X := X) settings).nesting (levels + 2)).run c).run
      (RunState.new tx (contextOf c))) := by
  have hcourse := c.only_own_course (X := X) tx
  rw [← attempt_standard settings levels c tx (by rw [htx]; rfl)] at hcourse
  exact hcourse.of_bind

end RpkiAuthority
