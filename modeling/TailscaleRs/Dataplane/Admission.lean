import TailscaleRs.Dataplane.DataPlane
import TailscaleRs.Dataplane.Reading

namespace TailscaleRs.Dataplane

open Time (Instant)
open Tunnel (PeerId WgCrypto Draws)

namespace FlowCache

variable (flows : FlowCache) (tuple : Tuple)

def holds : Bool := (flows.byTuple.lookup tuple).isSome

theorem get_snd : (flows.get tuple).2 = flows.holds tuple := by
  unfold get holds
  split <;> rename_i found <;> rw [found] <;> rfl

theorem get_holds {tuple other : Tuple} : (flows.get tuple).1.holds other = flows.holds other := by
  unfold get
  split
  · rfl
  · rename_i found
    by_cases is : other = tuple
    · subst is
      simp [holds, found]
    · simp [holds, AList.lookup_insert_ne is]

theorem lookup_evict {tuple : Tuple} (entries : List (Nat × Tuple))
    {byTuple : AList fun _ : Tuple => Nat}
    (held : ((evict byTuple entries).1.lookup tuple).isSome) :
    (byTuple.lookup tuple).isSome := by
  induction entries generalizing byTuple with
  | nil => exact held
  | cons oldest rest ih =>
    rw [evict] at held
    split at held
    · have kept := ih held
      by_cases is : tuple = oldest.2
      · rw [is, AList.lookup_erase] at kept
        cases kept
      · rwa [AList.lookup_erase_ne is] at kept
    · exact held

theorem add_holds {flows : FlowCache} {tuple other : Tuple}
    (held : (flows.add tuple).holds other = true) : other = tuple ∨ flows.holds other = true := by
  have kept := lookup_evict _ held
  by_cases is : other = tuple
  · exact .inl is
  · rw [AList.lookup_insert_ne is] at kept
    exact .inr kept

theorem admitsInbound_snd (packet : Decoded) :
    (flows.admitsInbound packet.proto packet.src packet.dst).2 =
      (isTracked packet.proto && flows.holds ⟨packet.proto, packet.src, packet.dst⟩) := by
  unfold admitsInbound
  split <;> rename_i tracked
  · rw [get_snd, tracked, Bool.true_and]
  · rw [Bool.eq_false_iff.mpr tracked, Bool.false_and]

theorem admitsInbound_holds (packet : Decoded) (tuple : Tuple) :
    (flows.admitsInbound packet.proto packet.src packet.dst).1.holds tuple = flows.holds tuple := by
  unfold admitsInbound
  split
  · exact flows.get_holds
  · rfl

end FlowCache

section Verdict

variable {filter : PacketFilter} (flows : FlowCache) (packet : Decoded)

def acceptedEarly : Prop :=
  packet.proto = .tsmp ∨
  (isTracked packet.proto = true ∧ flows.holds ⟨packet.proto, packet.src, packet.dst⟩ = true) ∨
  packet.info.isTcpNonSyn = true ∨
  packet.info.isIcmpEchoResponse = true ∨
  packet.info.isIcmpError = true

variable {flows}

theorem verdict_iff :
    (inboundFilterVerdict filter flows packet).2 = true ↔
      dropBeforeRules packet.dst.ip = false ∧
      (fragmentVerdict packet.proto packet.frag = some true ∨
        fragmentVerdict packet.proto packet.frag = none ∧ packet.proto ≠ ipprotoUnknown ∧
          (acceptedEarly flows packet ∨ filter.canAccess packet.info [] = true)) := by
  unfold inboundFilterVerdict acceptedEarly
  cases dropBeforeRules packet.dst.ip with
  | true => simp
  | false =>
    cases fragmentVerdict packet.proto packet.frag with
    | some verdict => simp
    | none =>
      by_cases unknown : packet.proto = ipprotoUnknown
      · simp [unknown]
      by_cases tsmp : packet.proto = .tsmp
      · rw [tsmp] at unknown
        simp [unknown, tsmp]
      simp only [Bool.false_eq_true, ↓reduceIte, unknown, tsmp, FlowCache.admitsInbound_snd,
        true_and]
      split_ifs with tracked segment icmp <;> simp_all

theorem verdict_flows :
    (inboundFilterVerdict filter flows packet).1 = flows ∨
      (inboundFilterVerdict filter flows packet).1 =
        (flows.admitsInbound packet.proto packet.src packet.dst).1 := by
  unfold inboundFilterVerdict
  cases fragmentVerdict packet.proto packet.frag with
  | some verdict => exact .inl (by split <;> rfl)
  | none =>
    simp only
    split_ifs
    · exact .inl rfl
    · exact .inl rfl
    · exact .inl rfl
    all_goals exact .inr rfl

/-- A verdict depends on which flows there are, not on how recent they are. -/
theorem verdict_congr {other : FlowCache} (same : ∀ tuple, flows.holds tuple = other.holds tuple) :
    (inboundFilterVerdict filter flows packet).2 =
      (inboundFilterVerdict filter other packet).2 := by
  rw [Bool.eq_iff_iff, verdict_iff, verdict_iff]
  simp only [acceptedEarly, same]

end Verdict

/-- A message between nodes that is taken out of the batch: an advertisement, or a reject that
ends the exchange it is about. -/
def consumed (b : Bytes) : Bool :=
  (Tsmp.DiscoKeyAdvertisement.parse b).isSome ||
    (Tsmp.TailscaleRejectedHeader.parse b).any fun reject =>
      reject.reason ≠ .unknownAppConnectorTransitIp

structure Passed [Etherparse] (filter : PacketFilter) (flows : FlowCache) (b : Bytes)
    (packet : Decoded) : Prop where
  decoded : decodeInbound b = some packet
  unconsumed : packet.proto = .tsmp → consumed b = false
  verdict : (inboundFilterVerdict filter flows packet).2 = true

section Steps

variable (filter : PacketFilter) {cfg : RejectConfig} (peer : PeerId) (st : Filtering) (b : Bytes)

/-- The flows and what is kept, after a packet that is judged. -/
def Judged (packet : Decoded) (after : Filtering) : Prop :=
  after.flows = (inboundFilterVerdict filter st.flows packet).1 ∧
    after.kept = if (inboundFilterVerdict filter st.flows packet).2 then st.kept ++ [(peer, b)]
      else st.kept

variable {peer}

theorem judge_judged {packet : Decoded} :
    Judged filter peer st b packet (st.judge filter cfg peer b packet) := by
  unfold Judged Filtering.judge
  dsimp only
  split <;> exact ⟨rfl, rfl⟩

variable [Etherparse]

/-- A packet that cannot be read, or is a message between nodes, is passed over, with the flows and
what is kept as they were; every other one is judged. -/
theorem one_cases :
    ((∀ packet, decodeInbound b = some packet → packet.proto = .tsmp) ∧
      (st.one filter cfg peer b).flows = st.flows ∧ (st.one filter cfg peer b).kept = st.kept) ∨
    ∃ packet, decodeInbound b = some packet ∧ (packet.proto = .tsmp → consumed b = false) ∧
      Judged filter peer st b packet (st.one filter cfg peer b) := by
  unfold Filtering.one
  cases decoded : decodeInbound b with
  | none => exact .inl ⟨nofun, rfl, rfl⟩
  | some packet =>
    dsimp only
    split
    · rename_i tsmp
      have message : ∀ other, some packet = some other → other.proto = .tsmp := by
        rintro other ⟨⟩
        exact tsmp
      unfold Filtering.judgeTsmp
      split
      · exact .inl ⟨message, by split <;> exact ⟨rfl, rfl⟩⟩
      · rename_i noAdvert
        split
        · rename_i noReject
          exact .inr ⟨packet, rfl, fun _ => by simp [consumed, noAdvert, noReject],
            judge_judged filter st b⟩
        · rename_i reject parsed
          split
          · rename_i goes
            exact .inr ⟨packet, rfl, fun _ => by simp [consumed, noAdvert, parsed, goes],
              judge_judged filter _ b⟩
          · exact .inl ⟨message, rfl, rfl⟩
    · rename_i other
      exact .inr ⟨packet, rfl, fun tsmp => absurd tsmp other,
        judge_judged filter st b⟩

/-- The flows that there were, and only packets kept that pass on them. -/
structure Filtering.Sound (flows : FlowCache) (sent : PeerId → Bytes → Prop) (st : Filtering) :
    Prop where
  unchanged : ∀ tuple, st.flows.holds tuple = flows.holds tuple
  kept : ∀ entry ∈ st.kept, sent entry.1 entry.2 ∧ ∃ packet, Passed filter flows entry.2 packet

variable {flows : FlowCache} {sent : PeerId → Bytes → Prop} {st : Filtering}

theorem one_sound {b : Bytes} (sound : st.Sound filter flows sent) (came : sent peer b) :
    (st.one filter cfg peer b).Sound filter flows sent := by
  rcases one_cases filter st b with ⟨_, same, kept⟩ |
    ⟨packet, decoded, unconsumed, same, kept⟩
  · exact ⟨by rw [same]; exact sound.unchanged, by rw [kept]; exact sound.kept⟩
  · refine ⟨fun tuple => ?_, ?_⟩
    · rw [same, ← sound.unchanged]
      rcases verdict_flows packet with untouched | looked
      · rw [untouched]
      · rw [looked, FlowCache.admitsInbound_holds]
    · rw [kept]
      split
      · rename_i admitted
        intro entry member
        rcases List.mem_append.mp member with old | new
        · exact sound.kept entry old
        · rw [List.mem_singleton.mp new]
          rw [verdict_congr packet sound.unchanged] at admitted
          exact ⟨came, packet, decoded, unconsumed, admitted⟩
      · exact sound.kept

theorem filterInboundFromPeer_sound {packets : List Bytes} (came : ∀ b ∈ packets, sent peer b)
    (sound : st.Sound filter flows sent) :
    (filterInboundFromPeer filter cfg peer packets st).Sound filter flows sent := by
  induction packets generalizing st with
  | nil => exact sound
  | cons b rest ih =>
    exact ih (fun other member => came other (List.mem_cons_of_mem b member))
      (one_sound filter sound (came b List.mem_cons_self))

end Steps

namespace DataPlane

variable [Etherparse]

/-- What a batch keeps came from the peer that owns its source, and passes on the flows there
were before the batch. -/
theorem filterBatches_sound (dp : DataPlane) {toLocal : Queues} {order : List PeerId} :
    (dp.filterBatches toLocal order).Sound dp.settings.packetFilter dp.flows fun peer b =>
      b ∈ (toLocal peer).getD [] ∧ dp.sourceAllowed peer b = true := by
  unfold filterBatches
  have start : Filtering.Sound dp.settings.packetFilter dp.flows
      (fun peer b => b ∈ (toLocal peer).getD [] ∧ dp.sourceAllowed peer b = true)
      ⟨dp.flows, InboundHarvest.empty, []⟩ := ⟨fun _ => rfl, nofun⟩
  generalize (⟨dp.flows, InboundHarvest.empty, []⟩ : Filtering) = st at start
  induction order generalizing st with
  | nil => exact start
  | cons peer rest ih =>
    refine ih _ (filterInboundFromPeer_sound _ (fun b member => ?_) start)
    exact List.mem_filter.mp member

theorem processInboundFrom_cases {W : WgCrypto} {debug : Bool} {dp after : DataPlane}
    {now : Instant} {draws : Nat → Draws} {origin : Option PeerId} {packets : List Bytes}
    {sessions : List Nat} {order : List PeerId} {result : InboundResult}
    (ran : dp.processInboundFrom W debug now draws origin packets sessions order =
      .ok (after, result)) :
    ∃ wireguard out, dp.wireguard.call W debug
        ⟨now, draws 0, .recvFrom origin packets sessions⟩ = .ok (wireguard, out) ∧
      result.toLocal = dp.route ((dp.filterBatches out.toLocal order).kept.map Prod.snd) ∧
      after.settings = dp.settings ∧ after.flows = (dp.filterBatches out.toLocal order).flows := by
  simp only [processInboundFrom, bind_ok] at ran
  obtain ⟨⟨wireguard, out⟩, called, ⟨_, _⟩, _, ⟨_, _⟩, _, is⟩ := ran
  cases is
  exact ⟨wireguard, out, called, rfl, rfl, rfl⟩

end DataPlane

end TailscaleRs.Dataplane
