import Mathlib.Data.List.Induction
import RpkiAuthority.Proofs.Authority.Subscribers
import RpkiAuthority.Proofs.Runs.Recorded

/-!
# Subscribers are those that the history names

The alerts of an authority are written back as a whole by every command that changes them, and by
the maintenance after every change of certificates. Still nobody is lost or comes back: who is
subscribed to an authority at the end of a run can be told from the commands that had an effect on
it since it was created (`SubscribedSince`), and from nothing else. Along with this every
subscription stays in order.

Both are kept by each end that a command can come to (`Command.Outcome.recalls`): the history grows
by one command, and the addresses by what it says.
-/

namespace RpkiAuthority

variable {X : Interface} {S : Type}

/-! ### What a history says about subscribers -/

/-- Whether a command had an effect on an authority. -/
def Affects (id : AggregateId) (p : Command × Except CommandError CommandStatus) : Prop :=
  p.1.authority.id = id ∧ (effectOf p.2).isSome = true

/-- **What followed the creation** of an authority, the last one if there were several. -/
def SinceCreation (id : AggregateId) (history since : RunHistory) : Prop :=
  ∃ before creation, history = before ++ creation :: since ∧
    (Affects id creation ∧ creation.1.type = .createCertificateAuthority) ∧
      ∀ p ∈ since, ¬(Affects id p ∧ p.1.type = .createCertificateAuthority)

/-- **An address was subscribed and not unsubscribed since**, in any spelling, by commands with an
effect on an authority. -/
def SubscribedSince (id : AggregateId) (history : RunHistory) (e : String) : Prop :=
  ∃ before p later, history = before ++ p :: later ∧ (Affects id p ∧ p.1.Subscribes e) ∧
    ∀ q ∈ later, ¬(Affects id q ∧ q.1.Unsubscribes e)

section History

variable {id : AggregateId} {history since : RunHistory} {e : String}
  {p : Command × Except CommandError CommandStatus}

theorem not_subscribedSince_nil : ¬SubscribedSince id [] e := by
  rintro ⟨before, p, later, h, -⟩
  exact List.append_ne_nil_of_right_ne_nil before (List.cons_ne_nil p later) h.symm

theorem subscribedSince_concat : SubscribedSince id (history ++ [p]) e ↔
    SubscribedSince id history e ∧ ¬(Affects id p ∧ p.1.Unsubscribes e) ∨
      Affects id p ∧ p.1.Subscribes e := by
  constructor
  · rintro ⟨before, q, later, h, hsubscribed, hkept⟩
    -- either the new command is the one that subscribed, or it came later
    cases later using List.reverseRecOn with
    | nil =>
      obtain ⟨rfl, hp⟩ := List.append_inj' h rfl
      exact Or.inr ((List.cons.inj hp).1 ▸ hsubscribed)
    | append_singleton rest last =>
      rw [← List.cons_append, ← List.append_assoc] at h
      obtain ⟨rfl, hp⟩ := List.append_inj' h rfl
      obtain rfl := (List.cons.inj hp).1
      rw [List.forall_mem_append, List.forall_mem_singleton] at hkept
      exact Or.inl ⟨⟨before, q, rest, rfl, hsubscribed, hkept.1⟩, hkept.2⟩
  · rintro (⟨⟨before, q, later, rfl, hsubscribed, hkept⟩, hp⟩ | hp)
    · refine ⟨before, q, later ++ [p], by simp, hsubscribed, ?_⟩
      rw [List.forall_mem_append, List.forall_mem_singleton]
      exact ⟨hkept, hp⟩
    · exact ⟨history, p, [], rfl, hp, List.forall_mem_nil _⟩

theorem SinceCreation.concat (h : SinceCreation id history since)
    (hp : ¬(Affects id p ∧ p.1.type = .createCertificateAuthority)) :
    SinceCreation id (history ++ [p]) (since ++ [p]) := by
  obtain ⟨before, creation, rfl, hcreation, hsince⟩ := h
  refine ⟨before, creation, by simp, hcreation, ?_⟩
  rw [List.forall_mem_append, List.forall_mem_singleton]
  exact ⟨hsince, hp⟩

end History

/-! ### Runs -/

/-- The subscription of an authority is in order, and the history names the addresses. -/
def CertificateAuthority.Recalled (ca : CertificateAuthority) (id : AggregateId)
    (history : RunHistory) : Prop :=
  ca.alerts.WellFormed ∧ ∃ since, SinceCreation id history since ∧
    ∀ e, e ∈ ca.alerts.subscribers.toList ↔ SubscribedSince id since e

namespace CertificateAuthority.Recalled

variable {ca ca' : CertificateAuthority} {id : AggregateId} {history : RunHistory} {c : Command}
  {r : Except CommandError CommandStatus}

/-- Commands without an effect on the authority name nobody. -/
theorem of_not_affects (h : ca.Recalled id history) (hp : ¬Affects id (c, r)) :
    ca.Recalled id (history ++ [(c, r)]) := by
  obtain ⟨hwell, since, hsince, hnamed⟩ := h
  refine ⟨hwell, since ++ [(c, r)], hsince.concat fun h => hp h.1, fun e => ?_⟩
  rw [subscribedSince_concat, or_iff_left fun h => hp h.1, and_iff_left fun h => hp h.1]
  exact hnamed e

/-- Nobody is subscribed to a new authority. -/
theorem created (hp : Affects id (c, r)) (hc : c.type = .createCertificateAuthority)
    (hca : ca.alerts = AlertConfiguration.initial) : ca.Recalled id (history ++ [(c, r)]) := by
  refine ⟨hca ▸ AlertConfiguration.wellFormed_initial, [],
    ⟨history, (c, r), rfl, ⟨hp, hc⟩, List.forall_mem_nil _⟩,
    fun e => iff_of_false ?_ not_subscribedSince_nil⟩
  rw [hca]
  exact List.not_mem_nil

/-- **A change of the authority** and the history name the same addresses. -/
theorem changed (h : ca.Recalled c.authority.id history) {change : Change}
    (hchange : c.Changes ca change) (hallowed : c.refusal = none)
    (hleft : ca' ∈ change.authority) (hp : Affects c.authority.id (c, r)) :
    ca'.Recalled c.authority.id (history ++ [(c, r)]) := by
  obtain ⟨hwell, since, hsince, hnamed⟩ := h
  refine ⟨hchange.wellFormed hallowed hwell ca' hleft, since ++ [(c, r)],
    hsince.concat fun h => hchange.type_ne_create h.2, fun e => ?_⟩
  rw [hchange.mem_subscribers hleft, subscribedSince_concat, and_iff_right hp, and_iff_right hp,
    hnamed]

end CertificateAuthority.Recalled

/-- The history names the subscribers of all authorities. -/
def World.Recalls (w : World S) (history : RunHistory) : Prop :=
  ∀ ⦃id ca⦄, w.store.get? id = some ca → ca.Recalled id history

/-- **Every end of a command** keeps what the history tells of the subscribers. -/
theorem Command.Outcome.recalls {c : Command} {w w' : World S}
    {r : Except CommandError CommandStatus} {history : RunHistory} (ho : c.Outcome w r w')
    (hw : w.Recalls history) : w'.Recalls (history ++ [(c, r)]) := by
  intro id ca hget
  cases ho with
  | failed same => exact (hw (same.get? id ▸ hget)).of_not_affects fun h => nomatch h.2
  | idle _ same => exact (hw (same.get? id ▸ hget)).of_not_affects fun h => nomatch h.2
  | @effective uuid change _ _ hallowed heffect haggregates =>
    rw [Store.get?, haggregates] at hget
    rcases Command.find?_writes hget with ⟨rfl, a, ha, rfl⟩ | ⟨hne, hother⟩
    · -- the version that is written says nothing about the alerts
      show a.Recalled c.authority.id _
      cases hfound : w.store.get? c.authority.id with
      | none =>
        rw [hfound] at heffect
        obtain ⟨name, hd, rfl⟩ := Command.effect_none_eq_ok heffect
        obtain rfl := Option.some.inj ha
        exact .created ⟨rfl, rfl⟩ (by rw [Command.type, hd]; rfl) rfl
      | some found =>
        rw [hfound] at heffect
        exact (hw hfound).changed (Command.effect_some_eq_ok heffect) hallowed ha ⟨rfl, rfl⟩
    · exact (hw hother).of_not_affects fun h => hne h.1.symm

theorem World.Ran.recalls {w w' : World S} {history : RunHistory} (h : World.Ran w history w')
    (hw : w.Recalls []) : w'.Recalls history :=
  h.preserves (P := fun history w => w.Recalls history) (fun _ _ _ _ _ hu ho => ho.recalls hu) [] hw

/-- **The subscribers of an authority are those that the run names**: whatever is sent to the
engine, every authority in the store was created in the run, and subscribed to it are the normal
forms of the addresses that commands with an effect on it have subscribed since then and not
unsubscribed again, in any spelling. A subscription has addresses, all of them normal, and states to
alert about. -/
theorem World.executeAll_subscribers (outside : Outside X S) (settings : Settings) (levels : Nat)
    (filter : BgpFilter) (s : S) (commands : List Command) :
    (∀ email, normalEmail (normalEmail email) = normalEmail email) ∧
      ∃ results w, executeAll outside (Engine.standard settings) (levels + 2) commands
          (initial filter s) = some (results, w) ∧
        ∀ id ca, w.store.get? id = some ca →
          (∀ subscription, ca.alerts.subscription = some subscription →
            subscription.emails.isEmpty = false ∧ subscription.states.isEmpty = false ∧
              ∀ e ∈ subscription.emails.toList, e ≠ "" ∧ normalEmail e = e) ∧
            ∃ since, SinceCreation id (commands.zip results) since ∧
              ∀ e, e ∈ ca.alerts.subscribers.toList ↔ SubscribedSince id since e := by
  obtain ⟨results, w, hrun, -, hran⟩ := executeAll_ran outside settings levels commands
    (initial filter s)
  have hw : w.Recalls (commands.zip results) :=
    hran.recalls fun _ _ h => absurd h.symm (Option.some_ne_none _)
  refine ⟨normalEmail_normalEmail, results, w, hrun, fun id ca hget => ?_⟩
  obtain ⟨hwell, hnamed⟩ := hw hget
  refine ⟨fun subscription hs => ?_, hnamed⟩
  have horder := hwell subscription hs
  exact ⟨horder.emails, horder.states, horder.normal⟩

end RpkiAuthority
