import RpkiAuthority.Proofs.Engine.Effect
import RpkiAuthority.Proofs.Text.Lowered

/-!
# Who is subscribed to alerts

Addresses are kept in normal form, and a normal form is its own normal form
(`normalEmail_normalEmail`), so spelling an address as it is kept finds it again. A subscription is
never without an address or a state to alert about (`AlertSubscription.WellFormed`): commands
without either are refused, and the subscription goes with its last address.

Of all changes of an authority only two are about the addresses: one adds the normal form that it is
given, the other one takes it away (`Command.Changes.mem_subscribers`). The others write the alerts
back with the subscription they found.
-/

namespace RpkiAuthority

/-! ### Normal forms -/

theorem toList_normalEmail (s : String) :
    (normalEmail s).toList = Text.lowered (Text.trimmed s.toList) := String.toList_ofList

/-- **Normal forms are normal.** -/
theorem normalEmail_normalEmail (s : String) : normalEmail (normalEmail s) = normalEmail s := by
  have htrimmed := (Text.unpadded_trimmed s.toList).lowered.trimmed_eq
  rw [normalEmail, toList_normalEmail, htrimmed, Text.lowered_lowered, normalEmail]

example : normalEmail " Νίκος.ΠΑΠΑΣ@Example.NET\t" = "νίκος.παπας@example.net" := by
  decide +kernel

/-- Only of blanks nothing is left. -/
theorem normalEmail_eq_empty_iff {s : String} :
    normalEmail s = "" ↔ (Text.trimmed s.toList).isEmpty = true := by
  rw [List.isEmpty_iff, ← Text.lowered_eq_nil_iff, ← toList_normalEmail, String.toList_eq_nil_iff]

/-- **A subscription in order**: there are addresses and states, and the addresses are normal. -/
structure AlertSubscription.WellFormed (s : AlertSubscription) : Prop where
  emails : s.emails.isEmpty = false
  states : s.states.isEmpty = false
  normal : ∀ e ∈ s.emails.toList, e ≠ "" ∧ normalEmail e = e

namespace AlertConfiguration

variable {c : AlertConfiguration} {email e : String} {states : OrdSet RouteValidity}
  {frequency : AlertFrequency}

/-- The addresses that are subscribed. -/
def subscribers (c : AlertConfiguration) : OrdSet String :=
  match c.subscription with
  | some s => s.emails
  | none => OrdMap.empty

/-- A subscription is in order if there is one. -/
def WellFormed (c : AlertConfiguration) : Prop := ∀ s ∈ c.subscription, s.WellFormed

theorem wellFormed_initial : initial.WellFormed := nofun

/-- The addresses of alerts in order are normal. -/
theorem WellFormed.normal (h : c.WellFormed) (he : e ∈ c.subscribers.toList) :
    e ≠ "" ∧ normalEmail e = e := by
  rw [subscribers] at he
  split at he
  · next s hs => exact (h s hs).normal e he
  · exact absurd he List.not_mem_nil

theorem subscription_subscribe : (c.subscribe email states frequency).subscription =
    some ⟨c.subscribers.add (normalEmail email), states, frequency⟩ := rfl

theorem mem_subscribers_subscribe : e ∈ (c.subscribe email states frequency).subscribers.toList ↔
    e = normalEmail email ∨ e ∈ c.subscribers.toList :=
  OrdMap.mem_keys_insert

theorem unsubscribe_of_none (hs : c.subscription = none) : c.unsubscribe email = c := by
  rw [unsubscribe, hs]

theorem subscription_unsubscribe {s : AlertSubscription} (hs : c.subscription = some s) :
    (c.unsubscribe email).subscription =
      if (s.emails.erase (normalEmail email)).isEmpty then none
      else some { s with emails := s.emails.erase (normalEmail email) } := by
  rw [unsubscribe, hs]

/-- An address is taken away whether it was the last one or not. -/
theorem subscribers_unsubscribe :
    (c.unsubscribe email).subscribers = c.subscribers.erase (normalEmail email) := by
  cases hs : c.subscription with
  | none =>
    rw [unsubscribe_of_none hs, subscribers, hs]
    exact (OrdMap.erase_eq_self (OrdMap.contains_eq_false_iff.mpr (OrdMap.find?_empty _))).symm
  | some s =>
    rw [subscribers, subscription_unsubscribe hs, subscribers, hs]
    by_cases hempty : (s.emails.erase (normalEmail email)).isEmpty = true
    · rw [if_pos hempty]
      exact (OrdMap.eq_empty_of_isEmpty hempty).symm
    · rw [if_neg hempty]

theorem mem_subscribers_unsubscribe : e ∈ (c.unsubscribe email).subscribers.toList ↔
    e ≠ normalEmail email ∧ e ∈ c.subscribers.toList := by
  rw [subscribers_unsubscribe, OrdSet.toList, OrdSet.toList, ← OrdMap.contains_iff,
    OrdMap.contains_erase_iff, OrdMap.contains_iff]

/-- What is left of a subscription has an address left. -/
theorem of_mem_subscription_unsubscribe {s : AlertSubscription}
    (h : s ∈ (c.unsubscribe email).subscription) :
    ∃ before ∈ c.subscription, s.states = before.states ∧ s.emails.isEmpty = false := by
  cases hs : c.subscription with
  | none =>
    rw [unsubscribe_of_none hs, hs] at h
    exact absurd h.symm (Option.some_ne_none s)
  | some before =>
    rw [subscription_unsubscribe hs] at h
    split at h
    · exact absurd h.symm (Option.some_ne_none s)
    · next hleft =>
      obtain rfl := Option.some.inj h
      exact ⟨before, rfl, rfl, Bool.eq_false_iff.mpr hleft⟩

/-- A subscription is in order if its addresses are those of alerts with normal addresses. -/
theorem WellFormed.of_subscribers (h : ∀ s ∈ c.subscription,
      s.emails.isEmpty = false ∧ s.states.isEmpty = false)
    (hnormal : ∀ e ∈ c.subscribers.toList, e ≠ "" ∧ normalEmail e = e) : c.WellFormed := by
  intro s hs
  have hemails : c.subscribers = s.emails := by rw [subscribers, hs]
  exact ⟨(h s hs).1, (h s hs).2, hemails ▸ hnormal⟩

theorem WellFormed.subscribe (h : c.WellFormed)
    (hemail : (Text.trimmed email.toList).isEmpty = false) (hstates : states.isEmpty = false) :
    (c.subscribe email states frequency).WellFormed := by
  refine .of_subscribers ?_ fun e he => ?_
  · rw [subscription_subscribe]
    rintro _ ⟨⟩
    refine ⟨Bool.eq_false_iff.mpr fun hempty => ?_, hstates⟩
    have hmem := OrdMap.mem_keys_insert (m := c.subscribers) (v := ()).mpr
      (Or.inl (Eq.refl (normalEmail email)))
    rw [show OrdMap.insert c.subscribers (normalEmail email) () = _ from
      OrdMap.eq_empty_of_isEmpty hempty] at hmem
    exact List.not_mem_nil hmem
  · rcases mem_subscribers_subscribe.mp he with rfl | he
    · refine ⟨fun hblank => ?_, normalEmail_normalEmail email⟩
      rw [normalEmail_eq_empty_iff, hemail] at hblank
      exact Bool.noConfusion hblank
    · exact h.normal he

theorem WellFormed.unsubscribe (h : c.WellFormed) : (c.unsubscribe email).WellFormed := by
  refine .of_subscribers (fun s hs => ?_) fun e he => ?_
  · obtain ⟨before, hbefore, hstates, hleft⟩ := of_mem_subscription_unsubscribe hs
    exact ⟨hleft, hstates ▸ (h before hbefore).states⟩
  · exact h.normal (mem_subscribers_unsubscribe.mp he).2

/-- Only the subscription matters. -/
theorem WellFormed.congr {c' : AlertConfiguration} (h : c.WellFormed)
    (hsame : c'.subscription = c.subscription) : c'.WellFormed := fun s hs => h s (hsame ▸ hs)

theorem subscribers_congr {c' : AlertConfiguration} (hsame : c'.subscription = c.subscription) :
    c'.subscribers = c.subscribers := by
  rw [subscribers, hsame, subscribers]

end AlertConfiguration

/-- **Maintenance leaves the subscription alone.** -/
theorem CertificateAuthority.subscription_maintained (ca : CertificateAuthority) :
    ca.maintained.alerts.subscription = ca.alerts.subscription := by
  have hentries : ca.dropLapsedEntries.alerts = ca.alerts := by
    rw [dropLapsedEntries]
    split <;> rfl
  rw [maintained, ← hentries, dropLapsedRoutes]
  split <;> rfl

/-! ### Commands -/

namespace Command

/-- Whether a command subscribes an address, given in any spelling. -/
def Subscribes (c : Command) (e : String) : Prop :=
  match c.details with
  | .subscribeToRoaAlert email _ _ => normalEmail email = e
  | _ => False

/-- Whether a command unsubscribes an address, given in any spelling. -/
def Unsubscribes (c : Command) (e : String) : Prop :=
  match c.details with
  | .unsubscribeFromRoaAlert email _ => normalEmail email = e
  | _ => False

variable {c : Command} {ca ca' : CertificateAuthority} {change : Change}

/-- What is not refused at once has an address and states. -/
theorem subscribe_of_refusal_eq_none {email : String} {states : OrdSet RouteValidity}
    {frequency : AlertFrequency} (h : c.refusal = none)
    (hd : c.details = .subscribeToRoaAlert email states frequency) :
    (Text.trimmed email.toList).isEmpty = false ∧ states.isEmpty = false := by
  rw [refusal, hd] at h
  dsimp only at h
  split at h
  · exact absurd h (by simp)
  · next hemail =>
    split at h
    · exact absurd h (by simp)
    · next hstates => exact ⟨Bool.eq_false_iff.mpr hemail, Bool.eq_false_iff.mpr hstates⟩

/-- **Changes keep a subscription in order.** -/
theorem Changes.wellFormed (h : c.Changes ca change) (hallowed : c.refusal = none)
    (hca : ca.alerts.WellFormed) : ∀ ca' ∈ change.authority, ca'.alerts.WellFormed := by
  cases h with
  | issued | revoked =>
    rintro _ ⟨⟩
    exact hca.congr (CertificateAuthority.subscription_maintained _)
  | subscribed hd =>
    rintro _ ⟨⟩
    obtain ⟨hemail, hstates⟩ := subscribe_of_refusal_eq_none hallowed hd
    exact hca.subscribe hemail hstates
  | unsubscribed =>
    rintro _ ⟨⟩
    exact hca.unsubscribe.congr rfl
  | ignored | configured =>
    rintro _ ⟨⟩
    exact hca.congr rfl
  | deleted => rintro _ ⟨⟩

/-- **What a change does to the addresses**: one may be added and one taken away. -/
theorem Changes.mem_subscribers (h : c.Changes ca change) (hleft : ca' ∈ change.authority)
    (e : String) : e ∈ ca'.alerts.subscribers.toList ↔
      e ∈ ca.alerts.subscribers.toList ∧ ¬c.Unsubscribes e ∨ c.Subscribes e := by
  rw [Subscribes, Unsubscribes]
  cases h with
  | issued hd | revoked hd =>
    obtain rfl := Option.some.inj hleft
    rw [AlertConfiguration.subscribers_congr (CertificateAuthority.subscription_maintained _), hd]
    exact ⟨fun h => .inl ⟨h, id⟩, fun h => (h.resolve_right id).1⟩
  | ignored hd | configured hd =>
    obtain rfl := Option.some.inj hleft
    rw [AlertConfiguration.subscribers_congr (c := ca.alerts) rfl, hd]
    exact ⟨fun h => .inl ⟨h, id⟩, fun h => (h.resolve_right id).1⟩
  | subscribed hd =>
    obtain rfl := Option.some.inj hleft
    rw [hd]
    refine AlertConfiguration.mem_subscribers_subscribe.trans ?_
    rw [or_comm, eq_comm]
    exact or_congr_left (and_iff_left id).symm
  | unsubscribed hd =>
    obtain rfl := Option.some.inj hleft
    rw [hd]
    refine AlertConfiguration.mem_subscribers_unsubscribe.trans ?_
    rw [and_comm, ne_comm]
    exact (or_iff_left id).symm
  | deleted => exact absurd hleft.symm (Option.some_ne_none _)

end Command

end RpkiAuthority
