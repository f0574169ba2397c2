import TailscaleRs.Filter.Updater

namespace TailscaleRs.Filter

open Net (IpAddr IpNet)
open Control (Node StateUpdate)

theorem prefixesOverlap_of_common {first second : IpNet} (addr : IpAddr)
    (inFirst : first.contains addr = true) (inSecond : second.contains addr = true) :
    prefixesOverlap first second = true := by
  rw [prefixesOverlap, Bool.or_eq_true]
  rcases Nat.le_total first.prefixLen second.prefixLen with shorter | longer
  · exact .inl (IpNet.nested_of_common first second addr inFirst inSecond shorter)
  · exact .inr (IpNet.nested_of_common second first addr inSecond inFirst longer)

theorem permitsUnlockedNodes_iff (rules : Ruleset) (allowed : List IpNet) :
    permitsUnlockedNodes rules allowed = true ↔
      ∃ rule ∈ rules, rule.dst ≠ [] ∧
        ∃ src ∈ rule.src.pfxs, ∃ route ∈ allowed, prefixesOverlap src route = true := by
  cases allowed with
  | nil => simp [permitsUnlockedNodes]
  | cons route rest => simp [permitsUnlockedNodes]

namespace PacketfilterUpdater

variable {env : Env} {updater : PacketfilterUpdater} {update : StateUpdate}

theorem permitted_iff :
    updater.permitted = true ↔
      ∃ entry ∈ updater.pfState.primary.entries, ∃ rule ∈ entry.2, rule.dst ≠ [] ∧
        ∃ src ∈ rule.src.pfxs, ∃ peer ∈ updater.unlockedAllowedIps.entries,
          ∃ route ∈ peer.2, prefixesOverlap src route = true := by
  simp only [permitted, List.any_eq_true, permitsUnlockedNodes_iff, List.mem_flatMap]
  constructor
  · rintro ⟨entry, stored, rule, listed, grants, src, named, route, ⟨peer, held, allowed⟩, meets⟩
    exact ⟨entry, stored, rule, listed, grants, src, named, peer, held, route, allowed, meets⟩
  · rintro ⟨entry, stored, rule, listed, grants, src, named, peer, held, route, allowed, meets⟩
    exact ⟨entry, stored, rule, listed, grants, src, named, route, ⟨peer, held, allowed⟩, meets⟩

/-- The updater with the data of an update, before anything is published. -/
def tracked (env : Env) (updater : PacketfilterUpdater) (update : StateUpdate) :
    PacketfilterUpdater :=
  (((updater.trackSelfAddrs env update).trackUnlockedPeers update).1.applyPacketfilter update).1

/-- The verdict on the unlocked peers is current and so is the last filter published. -/
structure Current (env : Env) (updater : PacketfilterUpdater) : Prop where
  verdict : updater.unlockedNodesPermitted = updater.permitted
  filter : ∀ filter, updater.liveFilter = some filter → filter = updater.publishedFilter env

theorem current_new : Current env new := ⟨rfl, nofun⟩

/-- An update that moves the node's own addresses under shields brings rules along. -/
def Republishes (env : Env) (updater : PacketfilterUpdater) (update : StateUpdate) : Prop :=
  env.blockIncoming = false ∨ update.packetfilter.isSome ∨ updater.liveFilter = none ∨
    ∀ node, update.node = some node → selfNodeAddresses node env.enableIpv6 = updater.selfAddrs

theorem reassessed_verdict :
    updater.reassessUnlockedNodes.1.unlockedNodesPermitted = updater.permitted ∧
      updater.reassessUnlockedNodes.1.permitted = updater.permitted := by
  unfold reassessUnlockedNodes
  split
  · rename_i same
    exact ⟨same.symm, rfl⟩
  · exact ⟨rfl, rfl⟩

theorem reassessed_same (unmoved : updater.reassessUnlockedNodes.2 = false) :
    updater.permitted = updater.unlockedNodesPermitted ∧
      updater.reassessUnlockedNodes.1 = updater := by
  unfold reassessUnlockedNodes at unmoved ⊢
  split
  · rename_i same
    exact ⟨same, rfl⟩
  · rename_i moved
    simp [moved] at unmoved

theorem pfState_tracked (quiet : update.packetfilter = none) :
    (tracked env updater update).pfState = updater.pfState := by
  simp [tracked, applyPacketfilter, quiet, trackUnlockedPeers, trackSelfAddrs]

theorem publishedFilter_tracked (republishes : Republishes env updater update)
    (quiet : update.packetfilter = none) {filter : DynFilter}
    (live : updater.liveFilter = some filter) :
    (tracked env updater update).publishedFilter env = updater.publishedFilter env := by
  unfold publishedFilter wrapForPublication
  rw [pfState_tracked quiet]
  cases shields : env.blockIncoming with
  | false => rfl
  | true =>
    suffices addrs : (tracked env updater update).selfAddrs = updater.selfAddrs by
      rw [addrs]
      rfl
    rcases republishes with down | rules | unpublished | same
    · simp [down] at shields
    · simp [quiet] at rules
    · simp [unpublished] at live
    · cases carried : update.node with
      | none => simp [tracked, applyPacketfilter, trackUnlockedPeers, trackSelfAddrs, carried]
      | some node =>
        rw [← same node carried]
        simp [tracked, applyPacketfilter, trackUnlockedPeers, trackSelfAddrs, carried, shields]

/-- An update that publishes nothing leaves the last filter current. -/
theorem tracked_current (current : Current env updater)
    (republishes : Republishes env updater update) (quiet : update.packetfilter = none)
    (verdict : (tracked env updater update).permitted = updater.unlockedNodesPermitted) :
    Current env (tracked env updater update) where
  verdict := verdict.symm
  filter := by
    intro filter live
    rw [publishedFilter_tracked republishes quiet live]
    exact current.filter filter live

theorem permitted_tracked (quiet : update.packetfilter = none)
    (still : ((updater.trackSelfAddrs env update).trackUnlockedPeers update).2 = false) :
    (tracked env updater update).permitted = updater.permitted := by
  have peers : (tracked env updater update).unlockedAllowedIps.entries.Perm
      updater.unlockedAllowedIps.entries := of_decide_eq_true ((Bool.not_eq_false' _).mp still)
  rw [Bool.eq_iff_iff, permitted_iff, permitted_iff, pfState_tracked quiet]
  simp only [peers.mem_iff]

theorem handle_current (current : Current env updater)
    (republishes : Republishes env updater update) : Current env (handle env updater update) := by
  have rules : ∀ other : PacketfilterUpdater,
      (!(other.applyPacketfilter update).2) = true → update.packetfilter = none := by
    simp [applyPacketfilter]
  unfold handle
  simp only [Bool.and_eq_true]
  split_ifs with quiet unmoved
  · apply tracked_current current republishes (rules _ quiet.1)
    rw [permitted_tracked (rules _ quiet.1) (by simpa using quiet.2), current.verdict]
  · -- the peers moved and the verdict did not
    obtain ⟨same, assessed⟩ := reassessed_same ((Bool.not_eq_true' _).mp unmoved.2)
    rw [assessed]
    exact tracked_current current republishes (rules _ unmoved.1) same
  · obtain ⟨verdict, same⟩ := @reassessed_verdict (tracked env updater update)
    exact ⟨verdict.trans same.symm, fun filter live => (Option.some.inj live).symm⟩

theorem selfAddrs_handle (shields : env.blockIncoming = true) :
    (handle env updater update).selfAddrs =
      (update.node.map fun node => selfNodeAddresses node env.enableIpv6).getD
        updater.selfAddrs := by
  have tracks : (tracked env updater update).selfAddrs =
      (update.node.map fun node => selfNodeAddresses node env.enableIpv6).getD
        updater.selfAddrs := by
    cases carried : update.node <;>
      simp [tracked, applyPacketfilter, trackUnlockedPeers, trackSelfAddrs, carried, shields]
  have assessed : ∀ other : PacketfilterUpdater,
      other.reassessUnlockedNodes.1.selfAddrs = other.selfAddrs := by
    intro other
    unfold reassessUnlockedNodes
    split <;> rfl
  rw [← tracks]
  unfold handle
  simp only
  split_ifs
  · rfl
  · exact assessed _
  · exact assessed _

theorem selfAddrs_run (shields : env.blockIncoming = true) (updates : List StateUpdate) :
    (run (handle env) updater updates).selfAddrs =
      ((updates.filterMap StateUpdate.node).getLast?.map
        fun node => selfNodeAddresses node env.enableIpv6).getD updater.selfAddrs := by
  induction updates using List.reverseRecOn with
  | nil => rfl
  | append_singleton earlier last ih =>
    rw [run_append, List.filterMap_append]
    show (handle env (run (handle env) updater earlier) last).selfAddrs = _
    rw [selfAddrs_handle shields, ih]
    cases carried : last.node <;> simp [carried]

/-- A tracked peer that the lock does not cover has an address that a stored rule names as a
source of packets to somewhere. -/
def LetsUnlockedIn (updater : PacketfilterUpdater) : Prop :=
  ∃ id routes route name ruleset rule src addr,
    updater.unlockedAllowedIps.lookup id = some routes ∧ route ∈ routes ∧
    updater.pfState.primary.lookup name = some ruleset ∧ rule ∈ ruleset ∧ rule.dst ≠ [] ∧
    src ∈ rule.src.pfxs ∧ src.contains addr = true ∧ route.contains addr = true

theorem permitted_of_letsUnlockedIn (lets : LetsUnlockedIn updater) : updater.permitted = true := by
  obtain ⟨id, routes, route, name, ruleset, rule, src, addr, peer, listed, stored, holds, grants,
    named, inSrc, inRoute⟩ := lets
  exact permitted_iff.mpr ⟨⟨name, ruleset⟩, AList.mem_lookup_iff.mp stored, rule, holds, grants,
    src, named, ⟨id, routes⟩, AList.mem_lookup_iff.mp peer, route, listed,
    prefixesOverlap_of_common addr inSrc inRoute⟩

theorem publishedFilter_shields (shields : env.blockIncoming = true) (info : PacketInfo)
    (caps : List String) (own : info.dst ∈ updater.selfAddrs) :
    (updater.publishedFilter env).matches info caps = false := by
  unfold publishedFilter wrapForPublication
  split <;> simp [DynFilter.matches, own]

end PacketfilterUpdater

open PacketfilterUpdater

/-- In every run in which an update that moves the own addresses under shields brings rules
along, the last filter published is the one that would be published now; it takes nothing to an
own address under shields, and nothing at all while it lets an unlocked peer in. -/
theorem published_filter_is_current (env : Env) (updates : List StateUpdate)
    (admitted : Along (handle env) (Republishes env) new updates) (filter : DynFilter)
    (published : (run (handle env) new updates).liveFilter = some filter) :
    (∀ info caps, filter.matches info caps =
      ((run (handle env) new updates).publishedFilter env).matches info caps) ∧
    (env.blockIncoming = true → ∀ node,
      (updates.filterMap StateUpdate.node).getLast? = some node → ∀ info caps,
        info.dst ∈ selfNodeAddresses node env.enableIpv6 → filter.matches info caps = false) ∧
    (LetsUnlockedIn (run (handle env) new updates) →
      ∀ info caps, filter.matches info caps = false) := by
  have current : Current env (run (handle env) new updates) :=
    run_invariant (handle env) (Republishes env) (Current env)
      (fun _ _ current republishes => handle_current current republishes) new updates current_new
      admitted
  rw [current.filter filter published]
  refine ⟨fun _ _ => rfl, ?_, ?_⟩
  · intro shields node last info caps own
    apply publishedFilter_shields shields
    rw [selfAddrs_run shields, last]
    exact own
  · intro lets info caps
    have nothing : MapFilter.matches ∅ info caps = false := rfl
    rw [publishedFilter, current.verdict, if_pos (permitted_of_letsUnlockedIn lets),
      wrapForPublication]
    split <;> simp [DynFilter.matches, nothing]

def shieldsUp : Env := ⟨true, false⟩

def openRules : StateUpdate :=
  ⟨none, none, [], some ⟨some [tcpFrom anywhere allPorts], ∅⟩, [], [], none⟩

/-- Control tells the node its addresses and nothing else. -/
def selfNodeOnly : StateUpdate := ⟨some (Node.numbered 9), none, [], none, [], [], none⟩

/-- The addresses are known before the first rules come, and do not move after. -/
theorem published_filter_is_current_shieldsUp :
    (∃ filter, (run (handle shieldsUp) new [selfNodeOnly, openRules, selfNodeOnly]).liveFilter =
        some filter) ∧
      ∀ filter, (run (handle shieldsUp) new [selfNodeOnly, openRules, selfNodeOnly]).liveFilter =
          some filter →
        filter.matches (tcpPacket (ip4 10 1 0 1) 22) [] = true ∧
        filter.matches ⟨ip4 10 1 0 1, ip4 100 64 0 9, .tcp, 22, .unknown⟩ [] = false := by
  refine ⟨⟨_, rfl⟩, ?_⟩
  intro filter published
  have admitted : Along (handle shieldsUp) (Republishes shieldsUp) new
      [selfNodeOnly, openRules, selfNodeOnly] := by
    refine ⟨.inr (.inr (.inl rfl)), .inr (.inl rfl), ?_, trivial⟩
    refine .inr (.inr (.inr ?_))
    intro node carried
    cases carried
    rfl
  obtain ⟨current, own, _⟩ :=
    published_filter_is_current shieldsUp _ admitted filter published
  refine ⟨?_, own rfl (Node.numbered 9) rfl _ _ (by decide)⟩
  rw [current]
  rfl

/-- The rules come first: the node learns its addresses and the filter in use still takes a
packet to one of them. -/
theorem published_filter_is_stale :
    ((run (handle shieldsUp) new [openRules, selfNodeOnly]).liveFilter.map fun filter =>
        filter.matches ⟨ip4 10 1 0 1, ip4 100 64 0 9, .tcp, 22, .unknown⟩ []) = some true ∧
      ((run (handle shieldsUp) new [openRules, selfNodeOnly]).publishedFilter shieldsUp).matches
        ⟨ip4 10 1 0 1, ip4 100 64 0 9, .tcp, 22, .unknown⟩ [] = false :=
  ⟨rfl, rfl⟩

end TailscaleRs.Filter
