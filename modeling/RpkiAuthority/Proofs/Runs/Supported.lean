import RpkiAuthority.Proofs.Authority.Supported
import RpkiAuthority.Proofs.Runs.Basic

/-!
# No run leaves unsupported configuration behind

Commands keep the configuration of the authority they are about supported, and do not touch other
authorities. So whatever is sent to the engine, in whatever order, every authority in the store
makes statements about customers it holds only.
-/

namespace RpkiAuthority

variable {X : Interface} {S : Type}

namespace World

/-- The configuration of every authority is supported by its certificates. -/
def Supported (w : World S) : Prop := ∀ ⦃id ca⦄, w.store.get? id = some ca → ca.Supported

theorem supported_initial (filter : BgpFilter) (s : S) : (initial filter s).Supported :=
  fun _ _ h => absurd h.symm (Option.some_ne_none _)

theorem SameCommitted.supported {w w' : World S} (h : w.SameCommitted w') (hw : w.Supported) :
    w'.Supported :=
  fun id _ hget => hw ((h.get? id).symm.trans hget)

end World

/-- **No command leaves unsupported configuration behind.** -/
theorem Command.Outcome.supported {c : Command} {w w' : World S}
    {r : Except CommandError CommandStatus} (ho : c.Outcome w r w') (hc : c.IsOrdered)
    (hw : w.Supported) : w'.Supported := by
  cases ho with
  | failed same => exact same.supported hw
  | idle _ same => exact same.supported hw
  | @effective uuid change _ _ _ heffect haggregates =>
    intro id ca hget
    rw [Store.get?, haggregates] at hget
    rcases Command.find?_writes hget with ⟨rfl, a, ha, rfl⟩ | ⟨-, hother⟩
    · have hsupported : a.Supported :=
        Command.effect_supported hc (fun found hfound => hw hfound) heffect a ha
      exact hsupported.congr rfl rfl
    · exact hw hother

theorem World.Ran.supported {w w' : World S} {history : RunHistory} (h : World.Ran w history w')
    (hordered : ∀ p ∈ history, p.1.IsOrdered) (hw : w.Supported) : w'.Supported := by
  refine h.preserves (P := fun history w =>
    (∀ p ∈ history, p.1.IsOrdered) → w.Supported) ?_ [] (fun _ => hw) hordered
  intro history u c r u' hu ho hordered
  refine ho.supported (hordered (c, r) ?_) (hu fun p hp => hordered p ?_)
  · exact List.mem_append_right _ List.mem_cons_self
  · exact List.mem_append_left _ hp

/-- **No run leaves unsupported configuration behind.** Where certificates are lists of blocks with
their ends in order, in any authority after any run: what all certificates together hold is what one
of them holds, all customers are held, none is its own provider, and no provider is reserved for
private use. -/
theorem World.executeAll_supported (outside : Outside X S) (settings : Settings) (levels : Nat)
    (filter : BgpFilter) (s : S) {commands : List Command} (h : ∀ c ∈ commands, c.IsOrdered) :
    ∃ results w, executeAll outside (Engine.standard settings) (levels + 2) commands
        (initial filter s) = some (results, w) ∧
      ∀ id ca, w.store.get? id = some ca →
        (∀ a, ca.certified.containsAsn a = true ↔
          ∃ resources ∈ ca.incoming.values, resources.HoldsAsn a) ∧
        ∀ customer providers, ca.aspa.find? customer = some providers →
          (∃ resources ∈ ca.incoming.values, resources.HoldsAsn customer) ∧
            ca.certified.containsAsn customer = true ∧ customer ∉ providers.keys ∧
              ∀ a ∈ providers.keys, ¬ResourceSet.privateAsns.HoldsAsn a := by
  obtain ⟨results, w, hrun, -, hran⟩ := executeAll_ran outside settings levels commands
    (initial filter s)
  have hw : w.Supported :=
    hran.supported (fun p hp => h p.1 (List.of_mem_zip hp).1) (supported_initial filter s)
  refine ⟨results, w, hrun, fun id ca hget => ?_⟩
  have hca := hw hget
  have hcontains := CertificateAuthority.containsAsn_certified hca.ordered
  refine ⟨hcontains, fun customer providers hfind => ?_⟩
  exact ⟨hca.held hfind, (hcontains customer).mpr (hca.held hfind), hca.others hfind,
    hca.assigned hfind⟩

/-- An authority is created and given a certificate, and says who its providers are. -/
def World.firstStatement : List Command :=
  [⟨⟨1, 0⟩, .system, .createCertificateAuthority "authority"⟩,
    ⟨⟨1, 0⟩, .system, .updateIncomingCertificate "key" ⟨[⟨64496, 64511⟩], [], []⟩⟩,
    ⟨⟨1, 1⟩, .user "alice", .updateAspaConfiguration
      (some (AspaConfiguration.entityTag OrdMap.empty))
      [⟨⟨64496, by decide⟩, [⟨⟨64497, by decide⟩, .any⟩]⟩] OrdMap.empty⟩]

theorem World.executeAll_supported_firstStatement :
    ∃ results w, executeAll Outside.none (Engine.standard .standard) 2 firstStatement
        (initial .standard ()) = some (results, w) ∧
      ∃ ca, w.store.get? 1 = some ca ∧ ca.aspa.keys = [⟨64496, by decide⟩] ∧
        ca.certified.containsAsn ⟨64496, by decide⟩ = true := by
  have hkeys : ((executeAll Outside.none (Engine.standard .standard) 2 firstStatement
      (initial .standard ())).bind fun q => (q.2.store.get? 1).map fun ca => ca.aspa.keys) =
        some [⟨64496, by decide⟩] := by
    decide +kernel
  have hordered : ∀ c ∈ firstStatement, c.IsOrdered := by
    intro c hc
    simp only [firstStatement, List.mem_cons, List.not_mem_nil, or_false] at hc
    rcases hc with rfl | rfl | rfl
    · trivial
    · simp [Command.IsOrdered, ResourceSet.Ordered, Block.Ordered]
    · trivial
  obtain ⟨results, w, hrun, hall⟩ :=
    executeAll_supported Outside.none .standard 0 .standard () hordered
  rw [hrun, Option.bind_some] at hkeys
  obtain ⟨ca, hca, haspa⟩ := Option.map_eq_some_iff.mp hkeys
  obtain ⟨-, hconfig⟩ := hall 1 ca hca
  have hcontains : ca.aspa.contains ⟨64496, by decide⟩ = true :=
    OrdMap.contains_iff.mpr (by rw [haspa]; exact List.mem_cons_self)
  obtain ⟨providers, hfind⟩ := Option.isSome_iff_exists.mp hcontains
  exact ⟨results, w, hrun, ca, hca, haspa, (hconfig _ providers hfind).2.1⟩

end RpkiAuthority
