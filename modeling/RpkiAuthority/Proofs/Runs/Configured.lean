import RpkiAuthority.Proofs.Authority.Configured
import RpkiAuthority.Proofs.Runs.Stale
import RpkiAuthority.Proofs.Runs.Supported

/-!
# Updates of ASPA configuration after any run

A command that updates the ASPA configuration of an authority, and is not stale, is decided by the
authority alone: it is refused with the error of the first condition that is not met, there is
nothing to do, or the configuration becomes what the entries say (`Command.Configures`). Nothing
else is changed then but the mark that configuration was updated, and the version.

The conditions speak of single certificates, while the handler looks at the union of them all, whose
blocks may overlap. That the two come to the same needs no more than certificates with the ends of
their blocks in order, and this every run keeps (`World.Ran.supported`). So it holds of every
authority after every run (`World.executeAll_configures`).
-/

namespace RpkiAuthority

variable {X : Interface} {S : Type}

namespace Command

/-- **The ends of an update** of the configuration of an authority. -/
inductive Configures (c : Command) (w : World S) (ca : CertificateAuthority)
    (ifMatch : Option String) (entries : List AspaEntry) :
    Except CommandError CommandStatus → World S → Prop where
  | refused {err : CommandError} {w' : World S} (h : ca.Refuses ifMatch entries err)
    (hsame : w'.committed = w.committed) : Configures c w ca ifMatch entries (.error err) w'
  | unchanged {w' : World S} (h : ca.Allows ifMatch entries) (hsaid : ca.aspa.Comprises entries)
    (hsame : w'.committed = w.committed) :
    Configures c w ca ifMatch entries (.ok ⟨false, ⟨c.authority.id, ca.version⟩⟩) w'
  /-- Of the authority only the configuration, the mark and the version change, and of the other
  authorities nothing. -/
  | updated {w' : World S} {updated : AspaConfiguration} (h : ca.Allows ifMatch entries)
    (hdiffers : ¬ca.aspa.Comprises entries) (hupdated : updated.Comprises entries)
    (hput : w'.store.get? c.authority.id = some { ca with
      aspa := updated
      configurationUpdated := true
      version := ca.version + 1 })
    (hothers : ∀ id, id ≠ c.authority.id → w'.store.get? id = w.store.get? id) :
    Configures c w ca ifMatch entries (.ok ⟨true, ⟨c.authority.id, ca.version + 1⟩⟩) w'

variable {c : Command} {w w' : World S} {ca : CertificateAuthority} {ifMatch : Option String}
  {entries : List AspaEntry} {changes : OrdMap Asn AspaChange}
  {r : Except CommandError CommandStatus}

/-- **An update has an effect** exactly if it is allowed and asks for something else. -/
theorem Configures.hasEffect_iff (h : c.Configures w ca ifMatch entries r w') :
    (∃ v, r = .ok ⟨true, v⟩) ↔ ca.Allows ifMatch entries ∧ ¬ca.aspa.Comprises entries := by
  cases h with
  | refused h => exact iff_of_false (fun ⟨_, h⟩ => nomatch h) fun hallows => h.not_allows hallows.1
  | unchanged _ hsaid =>
    exact iff_of_false (fun ⟨_, h⟩ => by cases h) fun hdiffers => hdiffers.2 hsaid
  | updated h hdiffers => exact iff_of_true ⟨_, rfl⟩ ⟨h, hdiffers⟩

/-- **There is nothing to do** exactly if it is allowed and asks for what is there. -/
theorem Configures.noEffect_iff (h : c.Configures w ca ifMatch entries r w') :
    (∃ v, r = .ok ⟨false, v⟩) ↔ ca.Allows ifMatch entries ∧ ca.aspa.Comprises entries := by
  cases h with
  | refused h => exact iff_of_false (fun ⟨_, h⟩ => nomatch h) fun hallows => h.not_allows hallows.1
  | unchanged h hsaid => exact iff_of_true ⟨_, rfl⟩ ⟨h, hsaid⟩
  | updated _ hdiffers =>
    exact iff_of_false (fun ⟨_, h⟩ => by cases h) fun hsaid => hdiffers hsaid.2

/-- The ruling on an update that is not stale is up to the authority. -/
theorem ruling_of_configuration (hc : c.details = .updateAspaConfiguration ifMatch entries changes)
    (hget : w.store.get? c.authority.id = some ca) (hfresh : c.stale w = none) :
    c.ruling w = (Handlers.newConfiguration ca ifMatch entries).map
      fun updated => ⟨some (ca.setAspa updated).markUpdated, []⟩ := by
  have hrefusal : c.refusal = none := by
    rw [refusal, hc]
  rw [ruling, hfresh, hrefusal, hget, effect, hc]
  dsimp only [Option.or]
  cases Handlers.newConfiguration ca ifMatch entries <;> rfl

end Command

namespace Engine

/-- **An update that is not stale is decided by the authority.** -/
theorem execute_configures (outside : Outside X S) (settings : Settings) (levels : Nat)
    {c : Command} {w : World S} {ca : CertificateAuthority} {ifMatch : Option String}
    {entries : List AspaEntry} {changes : OrdMap Asn AspaChange}
    (hc : c.details = .updateAspaConfiguration ifMatch entries changes)
    (hfree : w.store.locks = OrdMap.empty) (hget : w.store.get? c.authority.id = some ca)
    (hord : ∀ certificate ∈ ca.incoming.values, certificate.Ordered)
    (hfresh : c.stale w = none) :
    ∃ r w', World.execute outside (standard settings) (levels + 2) c w = some (r, w') ∧
      c.Configures w ca ifMatch entries r w' := by
  obtain ⟨w', hw', hcommitted, -⟩ := execute_eq_verdict outside settings levels c hfree
  refine ⟨c.verdict w, w', hw', ?_⟩
  rw [Command.verdict, Command.ruling_of_configuration hc hget hfresh, hget]
  rw [Command.ruling_of_configuration hc hget hfresh] at hcommitted
  have hconfigured : ca.Configured ifMatch entries
      (Handlers.newConfiguration ca ifMatch entries) := ca.configured_newConfiguration hord
  generalize Handlers.newConfiguration ca ifMatch entries = result at hcommitted hconfigured
  cases hconfigured with
  | refused h =>
    rw [Except.map, Command.told_error h.ne_noEffect]
    exact .refused h hcommitted
  | unchanged h hsaid => exact .unchanged h hsaid hcommitted
  | @updated updated h hdiffers hupdated =>
    have haggregates : w'.store.aggregates = c.writes
        (Change.version (w.store.get? c.authority.id)
          ⟨some (ca.setAspa updated).markUpdated, []⟩)
        ⟨some (ca.setAspa updated).markUpdated, []⟩ w.store.aggregates :=
      congrArg Prod.fst hcommitted
    refine .updated h hdiffers hupdated ?_ fun id hid => ?_
    · rw [Store.get?, haggregates, c.find?_writes_self, hget]
      rfl
    · rw [Store.get?, haggregates, c.find?_writes_of_ne _ _ _ hid]
      rfl

end Engine

namespace World

/-- **Updates of ASPA configuration after any run** in which certificates are lists of blocks with
their ends in order. An update that is not stale has an effect exactly if it is allowed and asks for
something else than what the authority has; there is nothing to do exactly if it is allowed and asks
for that; and otherwise it is refused with the error of the first condition that is not met. -/
theorem executeAll_configures (outside : Outside X S) (settings : Settings) (levels : Nat)
    (filter : BgpFilter) (s : S) {commands : List Command} (h : ∀ c ∈ commands, c.IsOrdered)
    {c : Command} {ifMatch : Option String} {entries : List AspaEntry}
    {changes : OrdMap Asn AspaChange}
    (hc : c.details = .updateAspaConfiguration ifMatch entries changes) :
    ∃ results w, executeAll outside (Engine.standard settings) (levels + 2) commands
        (initial filter s) = some (results, w) ∧
      ∀ ca, w.store.get? c.authority.id = some ca → c.stale w = none →
        ∃ r w', execute outside (Engine.standard settings) (levels + 2) c w = some (r, w') ∧
          ((∃ v, r = .ok ⟨true, v⟩) ↔
            ca.Allows ifMatch entries ∧ ¬ca.aspa.Comprises entries) ∧
          ((∃ v, r = .ok ⟨false, v⟩) ↔
            ca.Allows ifMatch entries ∧ ca.aspa.Comprises entries) ∧
          c.Configures w ca ifMatch entries r w' := by
  obtain ⟨results, w, hrun, -, hran⟩ := executeAll_ran outside settings levels commands
    (initial filter s)
  have hw : w.Supported :=
    hran.supported (fun p hp => h p.1 (List.of_mem_zip hp).1) (supported_initial filter s)
  refine ⟨results, w, hrun, fun ca hget hfresh => ?_⟩
  obtain ⟨r, w', hexecute, hconfigures⟩ := Engine.execute_configures outside settings levels hc
    (locks_of_executeAll hrun rfl) hget (hw hget).ordered hfresh
  exact ⟨r, w', hexecute, hconfigures.hasEffect_iff, hconfigures.noEffect_iff, hconfigures⟩

/-- An authority is given two certificates, of which one overlaps both blocks of the other. -/
def joinedCertificates : List Command :=
  [⟨⟨1, 0⟩, .system, .createCertificateAuthority "authority"⟩,
    ⟨⟨1, 0⟩, .system, .updateIncomingCertificate "ends" ⟨[⟨1, 3⟩, ⟨10, 12⟩], [], []⟩⟩,
    ⟨⟨1, 1⟩, .system, .updateIncomingCertificate "middle" ⟨[⟨2, 11⟩], [], []⟩⟩]

/-- A statement about the last AS number, behind the end of the first block of the union. -/
def lastCustomer : List AspaEntry := [⟨⟨12, by decide⟩, [⟨⟨5, by decide⟩, .any⟩]⟩]

theorem executeAll_configures_lastCustomer :
    ∃ results w, executeAll Outside.none (Engine.standard .standard) 2 joinedCertificates
        (initial .standard ()) = some (results, w) ∧
      ∃ ca, w.store.get? 1 = some ca ∧ ca.certified.asns = [⟨1, 11⟩, ⟨10, 12⟩] ∧
        ∃ v w', execute Outside.none (Engine.standard .standard) 2
          ⟨⟨1, 2⟩, .user "alice", .updateAspaConfiguration
            (some (AspaConfiguration.entityTag OrdMap.empty)) lastCustomer OrdMap.empty⟩ w =
          some (.ok ⟨true, v⟩, w') := by
  let c : Command := ⟨⟨1, 2⟩, .user "alice", .updateAspaConfiguration
    (some (AspaConfiguration.entityTag OrdMap.empty)) lastCustomer OrdMap.empty⟩
  have hauthority : ((executeAll Outside.none (Engine.standard .standard) 2 joinedCertificates
      (initial .standard ())).bind fun q => (q.2.store.get? 1).map fun ca =>
        (ca.incoming.values, ca.aspa, (c.stale q.2).isNone)) =
      some ([⟨[⟨1, 3⟩, ⟨10, 12⟩], [], []⟩, ⟨[⟨2, 11⟩], [], []⟩], OrdMap.empty, true) := by
    decide +kernel
  have hordered : ∀ c ∈ joinedCertificates, c.IsOrdered := by
    intro c hc
    simp only [joinedCertificates, List.mem_cons, List.not_mem_nil, or_false] at hc
    rcases hc with rfl | rfl | rfl
    · trivial
    · simp [Command.IsOrdered, ResourceSet.Ordered, Block.Ordered]
    · simp [Command.IsOrdered, ResourceSet.Ordered, Block.Ordered]
  obtain ⟨results, w, hrun, hconfigures⟩ :=
    executeAll_configures Outside.none .standard 0 .standard () hordered (c := c) rfl
  rw [hrun, Option.bind_some] at hauthority
  obtain ⟨ca, hget, hca⟩ := Option.map_eq_some_iff.mp hauthority
  simp only [Prod.mk.injEq] at hca
  obtain ⟨hincoming, haspa, hfresh⟩ := hca
  have hcertified : ca.certified.asns = [⟨1, 11⟩, ⟨10, 12⟩] := by
    rw [CertificateAuthority.certified, hincoming]
    cbv
  have hdistinct : AspaConfiguration.Distinct lastCustomer := ⟨by decide, by decide⟩
  have hheld : ∀ e ∈ lastCustomer, ca.Certifies e.customer := by
    intro e he
    obtain rfl := List.mem_singleton.mp he
    have hmem : (⟨[⟨1, 3⟩, ⟨10, 12⟩], [], []⟩ : ResourceSet) ∈ ca.incoming.values := by
      rw [hincoming]
      exact List.mem_cons_self
    exact ⟨_, hmem, ⟨10, 12⟩, by decide, by decide, by decide⟩
  have hdiffers : ¬ca.aspa.Comprises lastCustomer := by
    intro hsame
    rw [haspa] at hsame
    exact absurd (AspaConfiguration.ofEntries_eq_ok_iff.mpr ⟨hdistinct, hsame⟩) (by decide)
  obtain ⟨r, w', hexecute, heffect, -⟩ := hconfigures ca hget (Option.isNone_iff_eq_none.mp hfresh)
  obtain ⟨v, rfl⟩ := heffect.mpr ⟨⟨by rw [haspa], hdistinct, hheld, by decide, by decide⟩, hdiffers⟩
  exact ⟨results, w, hrun, ca, hget, hcertified, v, w', hexecute⟩

end World

end RpkiAuthority
