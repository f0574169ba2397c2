import TailscaleRs.Dataplane.Admission
import TailscaleRs.Tunnel.ReplayGuard

namespace TailscaleRs.Dataplane

open Net (IpAddr)
open TailscaleRs.Filter (IpProto)
open Time (Instant)
open Tunnel (PeerId Endpoint WgCrypto Halt Draws Stimulus)
open Bart (Longest)
open Etherparse

/-- The headers that a header leads to: each names the one after it, and what follows a fragment
header is a header only in the first fragment. -/
inductive Chain : UInt8 → Bytes → UInt8 → Bytes → Prop where
  | here (number : UInt8) (b : Bytes) : Chain number b number b
  | auth {number next : UInt8} {b sub : Bytes} (is : number = Etherparse.auth)
      (rest : Chain (byteAt b 0) (b.drop (((byteAt b 1).toNat + 2) * 4)) next sub) :
      Chain number b next sub
  | options {number next : UInt8} {b sub : Bytes}
      (is : number = hopByHop ∨ number = route ∨ number = destOptions)
      (rest : Chain (byteAt b 0) (b.drop (((byteAt b 1).toNat + 1) * 8)) next sub) :
      Chain number b next sub
  | fragment {number next : UInt8} {b sub : Bytes} (is : number = Etherparse.fragment)
      (first : u16At b 2 >>> 3 = 0) (rest : Chain (byteAt b 0) (b.drop 8) next sub) :
      Chain number b next sub

variable (b : Bytes) (number : UInt8)

/-- The packet has the header, at the end of any chain. -/
def Carries (sub : Bytes) : Prop :=
  match ipFamily b with
  | some .v4 =>
    u16At b 6 &&& 0x1fff = 0 ∧ Chain (byteAt b 9) (b.drop (headerLen4 b)) number sub
  | some .v6 => Chain (byteAt b 6) (b.drop 40) number sub
  | none => False

/-- The numbers of headers that lead to another one. -/
def leads : Prop :=
  number = hopByHop ∨ number = route ∨ number = destOptions ∨ number = auth ∨ number = fragment

instance leads.decidable (number : UInt8) : Decidable (leads number) :=
  inferInstanceAs (Decidable (_ ∨ _ ∨ _ ∨ _ ∨ _))

section Chains

variable {number next : UInt8} {b sub : Bytes}

theorem Chain.last (ends : ¬leads number) (chain : Chain number b next sub) :
    next = number ∧ sub = b := by
  simp only [leads, not_or] at ends
  cases chain with
  | here => exact ⟨rfl, rfl⟩
  | auth is rest => exact absurd is ends.2.2.2.1
  | options is rest =>
    rcases is with is | is | is
    · exact absurd is ends.1
    · exact absurd is ends.2.1
    · exact absurd is ends.2.2.1
  | fragment is first rest => exact absurd is ends.2.2.2.2

theorem Chain.past_auth (is : number = Etherparse.auth) (ends : ¬leads next)
    (chain : Chain number b next sub) :
    Chain (byteAt b 0) (b.drop (((byteAt b 1).toNat + 2) * 4)) next sub := by
  subst is
  cases chain with
  | here => exact absurd (by decide) ends
  | auth is rest => exact rest
  | options is rest => exact absurd is (by decide)
  | fragment is first rest => exact absurd is (by decide)

theorem Chain.past_fragment (is : number = Etherparse.fragment) (ends : ¬leads next)
    (chain : Chain number b next sub) :
    u16At b 2 >>> 3 = 0 ∧ Chain (byteAt b 0) (b.drop 8) next sub := by
  subst is
  cases chain with
  | here => exact absurd (by decide) ends
  | auth is rest => exact absurd is (by decide)
  | options is rest => exact absurd is (by decide)
  | fragment is first rest => exact ⟨first, rest⟩

/-- A packet carries no header but the one it names. -/
theorem Named.carries {other : UInt8} {found : Bytes} (named : Named b number sub)
    (ends : ¬leads number) (endsOther : ¬leads other) (carries : Carries b other found) :
    other = number ∧ found = sub := by
  unfold Carries at carries
  cases named with
  | base4 family start plain =>
    simp only [family] at carries
    exact carries.2.last ends
  | auth4 family start wrapped =>
    simp only [family] at carries
    have inner := carries.2.past_auth wrapped endsOther
    rw [byteAt_drop, byteAt_drop, List.drop_drop] at inner
    exact inner.last ends
  | base6 family plain =>
    simp only [family] at carries
    exact carries.last ends
  | fragment6 family lead start =>
    simp only [family] at carries
    obtain ⟨_, inner⟩ := carries.past_fragment lead endsOther
    rw [byteAt_drop, List.drop_drop] at inner
    exact inner.last ends

theorem not_carries_later {offset : UInt16} (stands : fragmentOffset b = some offset)
    (positive : 0 < offset) (ends : ¬leads number) : ¬Carries b number sub := by
  intro carries
  unfold Carries at carries
  unfold fragmentOffset at stands
  split at stands
  · rename_i family
    simp only [family] at carries
    rw [← Option.some.inj stands, carries.1] at positive
    exact absurd positive (by decide)
  · rename_i family
    simp only [family] at carries
    split at stands
    · rename_i lead
      obtain ⟨first, _⟩ := carries.past_fragment lead ends
      rw [u16At_drop] at first
      rw [← Option.some.inj stands, first] at positive
      exact absurd positive (by decide)
    · cases stands
  · cases stands

end Chains

/-- The messages that count as an answer: echo replies, and the errors by the numbers that the
original has for them, one of which is that of an address mask reply. -/
def countsAsAnswer (number icmpType icmpCode : UInt8) : Bool :=
  (number = 1 && (icmpType = 0 && icmpCode = 0 || icmpType = 3 || icmpType = 11 ||
    icmpType = 18)) ||
  (number = 58 && (icmpType = 129 && icmpCode = 0 || icmpType = 1 || icmpType = 2 ||
    icmpType = 3 || icmpType = 4))

/-- The echo replies and errors of ICMP and ICMPv6. -/
def isAnswer (number icmpType : UInt8) : Bool :=
  (number = 1 && (icmpType = 0 || icmpType = 3 || icmpType = 4 || icmpType = 5 ||
    icmpType = 11 || icmpType = 12)) ||
  (number = 58 && (icmpType = 129 || icmpType < 128))

/-- What is accepted by a transport header ahead of the rules, between two addresses and given the
flows and what is an answer. -/
inductive Early (answer : (number icmpType icmpCode : UInt8) → Bool) (flows : FlowCache)
    (src dst : IpAddr) (sub : Bytes) : UInt8 → Prop where
  | tsmp : Early answer flows src dst sub 99
  | reply (number : UInt8) (tracked : number = 17 ∨ number = 132) (whole : 4 ≤ sub.length)
      (known : flows.holds ⟨IpProto.ofByte number, ⟨src, u16At sub 0⟩, ⟨dst, u16At sub 2⟩⟩ = true) :
      Early answer flows src dst sub number
  | segment (whole : 20 ≤ sub.length) (flags : byteAt sub 13 &&& 0x12 ≠ 0x02) :
      Early answer flows src dst sub 6
  | icmp (number : UInt8) (family : number = 1 ∨ number = 58) (whole : 8 ≤ sub.length)
      (answers : answer number (byteAt sub 0) (byteAt sub 1) = true) :
      Early answer flows src dst sub number

/-- The packets that need no rule. -/
inductive Unruled (answer : (number icmpType icmpCode : UInt8) → Bool) (flows : FlowCache)
    (src dst : IpAddr) (b : Bytes) : Prop where
  | later (offset : UInt16) (stands : fragmentOffset b = some offset) (late : 10 ≤ offset)
  | header (number : UInt8) (sub : Bytes) (named : Named b number sub)
      (early : Early answer flows src dst sub number)
      (unconsumed : number = 99 → consumed b = false)

section Unruled

variable {answer : (number icmpType icmpCode : UInt8) → Bool} {flows : FlowCache} {src dst : IpAddr}
  {b sub : Bytes}

theorem Early.ends {number : UInt8} (early : Early answer flows src dst sub number) :
    ¬leads number := by
  cases early with
  | tsmp => decide
  | reply _ tracked => rcases tracked with rfl | rfl <;> decide
  | segment => decide
  | icmp _ family => rcases family with rfl | rfl <;> decide

theorem Unruled.no_syn (unruled : Unruled answer flows src dst b) (carries : Carries b 6 sub) :
    byteAt sub 13 &&& 0x12 ≠ 0x02 := by
  have ends : ¬leads 6 := by decide
  cases unruled with
  | later offset stands late =>
    have positive : 0 < offset := Nat.lt_of_lt_of_le (by decide : (0 : Nat) < 10) late
    exact absurd carries (not_carries_later stands positive ends)
  | header number found named early =>
    obtain ⟨is, rfl⟩ := named.carries early.ends ends carries
    cases early with
    | tsmp => exact absurd is (by decide)
    | reply _ tracked =>
      rw [← is] at tracked
      exact absurd tracked (by decide)
    | segment _ flags => exact flags
    | icmp _ family =>
      rw [← is] at family
      exact absurd family (by decide)

end Unruled

section Passed

variable {filter : PacketFilter} {flows : FlowCache} {b sub : Bytes} {packet : Decoded}
  {number : UInt8}

theorem acceptedEarly_early (reads : HeaderOf packet number sub)
    (accepted : acceptedEarly flows packet) :
    Early countsAsAnswer flows packet.src.ip packet.dst.ip sub number := by
  obtain ⟨proto, whole, tcp, ports, icmp⟩ := reads
  rcases accepted with tsmp | ⟨tracked, known⟩ | segment | echo | error
  · obtain rfl : number = 99 := by simpa [proto] using tsmp
    exact .tsmp
  · have is : number = 17 ∨ number = 132 := by simpa [isTracked, proto] using tracked
    obtain ⟨src, dst⟩ := ports (.inr is)
    refine .reply number is (Nat.le_trans (four_le_headerSize (.inr is)) whole) ?_
    rw [← proto, ← src, ← dst]
    exact known
  · unfold Filter.PacketInfo.isTcpNonSyn at segment
    split at segment
    · rename_i flags l4
      simp only [Decoded.info, proto, ofByte_eq_tcp, Bool.and_eq_true, decide_eq_true_eq]
        at segment l4
      obtain ⟨rfl, other⟩ := segment
      rw [tcp rfl] at l4
      injection l4 with is
      subst is
      exact .segment whole other
    · cases segment
  · unfold Filter.PacketInfo.isIcmpEchoResponse at echo
    split at echo
    · rename_i icmpType icmpCode l4
      obtain ⟨whole, rfl, rfl⟩ := icmp icmpType icmpCode l4
      simp only [Decoded.info, proto, ofByte_eq_icmp, ofByte_eq_icmpv6, Bool.and_eq_true,
        Bool.or_eq_true, decide_eq_true_eq] at echo
      refine .icmp number (echo.2.imp And.left And.left) whole ?_
      rcases echo with ⟨code, ⟨rfl, type⟩ | ⟨rfl, type⟩⟩ <;> rw [type, code] <;> rfl
    · cases echo
  · unfold Filter.PacketInfo.isIcmpError at error
    split at error
    · rename_i icmpType icmpCode l4
      obtain ⟨whole, rfl, rfl⟩ := icmp icmpType icmpCode l4
      simp only [Decoded.info, proto, ofByte_eq_icmp, ofByte_eq_icmpv6, Bool.and_eq_true,
        Bool.or_eq_true, decide_eq_true_eq] at error
      refine .icmp number (error.imp And.left And.left) whole ?_
      rcases error with ⟨rfl, (type | type) | type⟩ | ⟨rfl, ((type | type) | type) | type⟩ <;>
        simp [countsAsAnswer, type]
    · cases error

variable [Etherparse] [Documented]

/-- A packet that is admitted is a later fragment, or its transport header or a rule admits it. -/
theorem admitted_cases (decoded : decodeInbound b = some packet)
    (admitted : (inboundFilterVerdict filter flows packet).2 = true) :
    (∃ offset, fragmentOffset b = some offset ∧ 10 ≤ offset) ∨
    ∃ number sub, Named b number sub ∧ HeaderOf packet number sub ∧
      (Early countsAsAnswer flows packet.src.ip packet.dst.ip sub number ∨
        filter.canAccess packet.info [] = true) := by
  obtain ⟨reading, _, _⟩ := decode_reading decoded
  obtain ⟨_, accepted⟩ := (verdict_iff packet).mp admitted
  cases reading with
  | later offset stands positive verdict =>
    rw [verdict] at accepted
    rcases accepted with late | ⟨undecided, _⟩
    · exact .inl ⟨offset, stands, of_decide_eq_true (Option.some.inj late)⟩
    · cases undecided
  | unclassified _ verdict =>
    rcases verdict with dropped | ⟨undecided, unknown⟩
    · rw [dropped] at accepted
      rcases accepted with late | ⟨undecided, _⟩
      · cases late
      · cases undecided
    · rw [undecided] at accepted
      rcases accepted with late | ⟨_, known, _⟩
      · cases late
      · exact absurd unknown known
  | header number sub named reads verdict =>
    rw [verdict] at accepted
    rcases accepted with late | ⟨_, _, early | allowed⟩
    · cases late
    · exact .inr ⟨number, sub, named, reads, .inl (acceptedEarly_early reads early)⟩
    · exact .inr ⟨number, sub, named, reads, .inr allowed⟩

theorem passed_unruled (denies : ∀ info caps, filter.canAccess info caps = false)
    (passed : Passed filter flows b packet) :
    Unruled countsAsAnswer flows packet.src.ip packet.dst.ip b := by
  rcases admitted_cases passed.decoded passed.verdict with ⟨offset, stands, late⟩ |
    ⟨number, sub, named, reads, early | allowed⟩
  · exact .later offset stands late
  · refine .header number sub named early fun tsmp => passed.unconsumed ?_
    rw [reads.proto, tsmp]
    rfl
  · rw [denies] at allowed
    cases allowed

end Passed

/-- What holds of a packet that is handed to the local side although no rule allows anything:
the tunnel opened it for the peer that its source belongs to, its destination is ours, and it is
of a kind that needs no rule. -/
structure DeliveredFrom (answer : (number icmpType icmpCode : UInt8) → Bool) (W : WgCrypto)
    (debug : Bool) (dp : DataPlane) (stimulus : Stimulus) (transport : Nat) (b : Bytes)
    (peer : PeerId) (src dst : IpAddr) : Prop where
  opened : ∃ after out, dp.wireguard.call W debug stimulus = .ok (after, out) ∧
    b ∈ (out.toLocal peer).getD [] ∧ ∃ d ∈ Tunnel.deliveredIn out.happened,
      d.peer = peer ∧ d.payload = b ∧ ∀ past, dp.wireguard.Watched past →
        d.packet ∈ stimulus.call.packets ∧ d.Authentic W
  source : getSrcAddr b = some src
  owner : Longest dp.settings.srcFilterIn.routes (fun net => net.contains src = true) (some peer)
  destination : getDstAddr b = some dst
  unicast : isMulticast dst = false
  routable : isLinkLocal dst = true → dst = allowedLinkLocalV4
  action : Longest dp.settings.orIn.routes (fun net => net.contains dst = true)
    (some (.toOverlay transport))
  unruled : Unruled answer dp.flows src dst b
  noSyn : ∀ sub, Carries b 6 sub → byteAt sub 13 &&& 0x12 ≠ 0x02

namespace DataPlane

variable (W : WgCrypto) (debug : Bool) {dp : DataPlane} {peer : PeerId} {b : Bytes}

theorem mem_route {packets : List Bytes} {transport : Nat}
    (member : (transport, b) ∈ dp.route packets) :
    b ∈ packets ∧ ∀ dst, getDstAddr b = some dst →
      Longest dp.settings.orIn.routes (fun net => net.contains dst = true)
        (some (.toOverlay transport)) := by
  obtain ⟨packet, held, routed⟩ := List.mem_filterMap.mp member
  split at routed
  · cases routed
  · rename_i dst destination
    split at routed
    · rename_i found
      cases routed
      refine ⟨held, fun other is => ?_⟩
      obtain rfl : other = dst := Option.some.inj (is.symm.trans destination)
      have longest := (dp.settings.orIn.lookup_longest other).2
      rwa [found] at longest
    · cases routed

variable [Etherparse] [Documented]

/-- Whatever the state and the batch: if no rule allows anything, what is delivered was opened
for the owner of its source, is for a destination of ours that is no multicast or link-local one,
and is of a kind that needs no rule. No SYN without ACK is delivered. -/
theorem inbound_fails_closed {dp after : DataPlane} {now : Instant} {draws : Nat → Draws}
    {origin : Option PeerId} {packets : List Bytes} {sessions : List Nat} {order : List PeerId}
    {result : InboundResult}
    (denies : ∀ info caps, dp.settings.packetFilter.canAccess info caps = false)
    (ran : dp.processInboundFrom W debug now draws origin packets sessions order =
      .ok (after, result)) :
    ∀ transport b, (transport, b) ∈ result.toLocal → ∃ peer src dst,
      DeliveredFrom countsAsAnswer W debug dp
        ⟨now, draws 0, .recvFrom origin packets sessions⟩ transport b peer src dst := by
  intro transport b delivered
  obtain ⟨wireguard, out, called, routed, _, _⟩ := processInboundFrom_cases ran
  rw [routed] at delivered
  obtain ⟨held, action⟩ := mem_route delivered
  obtain ⟨⟨peer, packet⟩, kept, rfl⟩ := List.mem_map.mp held
  obtain ⟨⟨decrypted, allowed⟩, decoded, passed⟩ :=
    dp.filterBatches_sound.kept _ kept
  obtain ⟨_, source, destination⟩ := decode_reading passed.decoded
  obtain ⟨kind, _⟩ := (verdict_iff _).mp passed.verdict
  simp only [dropBeforeRules, Bool.or_eq_false_iff, Bool.and_eq_false_imp, decide_eq_false_iff_not,
    not_not] at kind
  have unruled := passed_unruled denies passed
  exact ⟨peer, decoded.src.ip, decoded.dst.ip,
    { opened := by
        refine ⟨wireguard, out, called, decrypted, ?_⟩
        rw [out.heard, Tunnel.payloadsIn] at decrypted
        obtain ⟨d, opened, same⟩ := List.mem_map.mp decrypted
        obtain ⟨delivered, is⟩ := List.mem_filter.mp opened
        refine ⟨d, delivered, of_decide_eq_true is, same, fun past watched => ?_⟩
        have genuine := Endpoint.call_watched W debug
          ⟨now, draws 0, .recvFrom origin packets sessions⟩ watched
        rw [called] at genuine
        exact genuine.2 d delivered
      source := source
      owner := by
        have longest := (dp.settings.srcFilterIn.lookup_longest decoded.src.ip).2
        simp only [sourceAllowed, source, decide_eq_true_eq] at allowed
        rwa [allowed] at longest
      destination := destination
      unicast := kind.1
      routable := kind.2
      action := action _ destination
      unruled := unruled
      noSyn := fun sub carries => unruled.no_syn carries }⟩

end DataPlane

open Tunnel in
/-- The near node with its session, and the addresses of both nodes; no rule allows anything. -/
def toyPlane (e : Endpoint) : DataPlane where
  wireguard := e
  settings :=
    { orOut := Bart.BuiltTable.empty
      srcFilterIn := Bart.BuiltTable.empty.insert
        (Control.Node.numbered 2).tailnetAddress.ipv4 toyFar
      orIn := Bart.BuiltTable.empty.insert (Control.Node.numbered 1).tailnetAddress.ipv4
        (.toOverlay 7)
      packetFilter := ⟨fun _ _ => false, false⟩
      discoAdvertisement := none
      peerapiPort := none
      disableTsmpRejected := false }
  flows := FlowCache.empty

def toyTransport (payload : IpPayload) : Option (Option TransportSlice) :=
  let sliced (size : Nat) (slice : TransportSlice) :=
    if payload.payload.length < size then none else some (some slice)
  if payload.fragmented then some none
  else if payload.ipNumber = 1 then sliced 8 (.icmpv4 payload.payload)
  else if payload.ipNumber = 17 then sliced 8 (.udp payload.payload)
  else if payload.ipNumber = 6 then sliced 20 (.tcp payload.payload)
  else some none

/-- IPv4 packets without options, of the length that the header has. -/
def toySlice : Option SlicedPacket := do
  if ipFamily b ≠ some .v4 ∨ headerLen4 b ≠ 20 ∨ (u16At b 2).toNat ≠ b.length then none
  else
    let source ← addrAt .v4 b 12
    let destination ← addrAt .v4 b 16
    let offset := u16At b 6 &&& 0x1fff
    let more : Bool := u16At b 6 &&& 0x2000 ≠ 0
    let fragmented : Bool := more || offset ≠ 0
    let payload : IpPayload :=
      if byteAt b 9 = auth then
        ⟨byteAt b 20, fragmented, b.drop (20 + ((byteAt b 21).toNat + 2) * 4)⟩
      else ⟨byteAt b 9, fragmented, b.drop 20⟩
    let transport ← toyTransport payload
    return ⟨.ipv4 ⟨source, destination, offset, more, payload⟩, transport⟩

theorem toySlice_of {b : Bytes} {pkt : SlicedPacket} (sliced : toySlice b = some pkt) :
    ∃ slice, pkt.net = .ipv4 slice ∧ slice.Of b ∧
      toyTransport slice.payload = some pkt.transport := by
  unfold toySlice at sliced
  split at sliced
  · cases sliced
  · rename_i plain
    simp only [not_or, not_not] at plain
    obtain ⟨family, long, -⟩ := plain
    simp only [Option.bind_eq_bind, Option.bind_eq_some_iff, Option.pure_def,
      Option.some.injEq] at sliced
    obtain ⟨source, atSource, destination, atDestination, transport, carried, rfl⟩ := sliced
    refine ⟨_, rfl, ⟨family, atSource, atDestination, rfl, ?_, fun plain => ?_, fun is => ?_⟩,
      carried⟩
    · dsimp only
      split <;> rfl
    · simp [plain, long]
    · simp [is, long]

theorem toyTransport_of {payload : IpPayload} {transport : Option TransportSlice}
    (sliced : toyTransport payload = some transport) : TransportOf payload transport := by
  obtain ⟨number, fragmented, body⟩ := payload
  simp only [toyTransport] at sliced
  split_ifs at sliced with fragmented icmp short udp short tcp short <;> cases sliced
  · exact .fragment _ fragmented
  all_goals simp only [Bool.not_eq_true] at fragmented; subst fragmented
  · subst icmp
    exact .icmpv4 _ (Nat.not_lt.mp short)
  · subst udp
    exact .udp _ _ (List.prefix_refl _) (Nat.not_lt.mp short)
  · subst tcp
    exact .tcp _ (Nat.not_lt.mp short)
  · exact .other _ _ (by simp [udp, tcp])

@[reducible] def toySlicer : Etherparse := ⟨toySlice⟩

attribute [local instance] toySlicer

theorem toySlicer_documented : Documented where
  ipv4 sliced := by
    obtain ⟨slice, is, of, -⟩ := toySlice_of sliced
    cases is
    exact of
  ipv6 sliced := by
    obtain ⟨slice, is, -⟩ := toySlice_of sliced
    cases is
  transport sliced := by
    obtain ⟨slice, is, -, carried⟩ := toySlice_of sliced
    rw [is]
    exact toyTransport_of carried

def toyPacket (number : UInt8) (body : Bytes) : Bytes :=
  [0x45, 0, 0, UInt8.ofNat (20 + body.length), 0, 0, 0, 0, 64, number, 0, 0,
    100, 64, 0, 2, 100, 64, 0, 1] ++ body

def toySegment : Bytes :=
  toyPacket 6 ([0, 80, 31, 144, 0, 0, 0, 1, 0, 0, 0, 2, 0x50, 0x10, 1, 0, 0, 0, 0, 0] ++
    [72, 84, 84, 80, 47, 49, 46, 49])

def toyMaskReply : Bytes := toyPacket 1 [18, 0, 0, 0, 0, 1, 0, 1, 255, 255, 255, 0]

open Tunnel in
/-- What the far node sends on the session to have a packet delivered. -/
def toyHeard : List Bytes :=
  toySent 20 [toyAccept, toyRespond, toyConfirm] (toyAt 2 202 (.send [(toyNear, [b])])) toyNear

open Tunnel in
/-- The near node, once it has the session, receives it. -/
def toyInbound (e : Endpoint) : Except Halt (DataPlane × InboundResult) :=
  (toyPlane e).processInboundFrom WgCrypto.toy true (Time.fromSecs 2) (fun _ => (toyAt 2 103
    (.removePeer toyFar)).draws) none (toyHeard b) [] [toyFar]

open Tunnel in
abbrev toyDelivers : Prop :=
  Returns (fun e => Returns (fun made => (7, b) ∈ made.2.toLocal)
    (toyInbound b e)) (toyLife true 10 [toyDial, toyInitiate, toyFinish])

open Tunnel in
/-- The segment is delivered. -/
theorem inbound_fails_closed_toySegment :
    Returns (fun e => Returns (fun made =>
        (7, toySegment) ∈ made.2.toLocal ∧ ∃ stimulus peer src dst,
          DeliveredFrom countsAsAnswer WgCrypto.toy true (toyPlane e) stimulus 7 toySegment peer
            src dst)
      (toyInbound toySegment e)) (toyLife true 10 [toyDial, toyInitiate, toyFinish]) := by
  have heard : toyDelivers toySegment := by decide +kernel
  refine heard.mono fun e heard => ?_
  obtain ⟨made, ran, heard⟩ := heard.returns
  rw [ran]
  have := toySlicer_documented
  exact ⟨heard, _, DataPlane.inbound_fails_closed WgCrypto.toy true (fun _ _ => rfl) ran 7
    toySegment heard⟩

theorem maskReply_ruled (flows : FlowCache) (src dst : IpAddr) :
    ¬Unruled (fun number icmpType _ => isAnswer number icmpType) flows src dst toyMaskReply := by
  have carried {number : UInt8} {sub : Bytes} (named : Named toyMaskReply number sub) :
      number = 1 ∧ sub = toyMaskReply.drop 20 := by
    cases named with
    | base4 => exact ⟨rfl, rfl⟩
    | auth4 _ _ wrapped => exact absurd wrapped (by decide)
    | base6 family => exact absurd family (by decide)
    | fragment6 family => exact absurd family (by decide)
  intro unruled
  cases unruled with
  | later offset stands late =>
    rw [← Option.some.inj stands] at late
    exact absurd late (by decide)
  | header number sub named early =>
    obtain ⟨is, rfl⟩ := carried named
    cases early with
    | tsmp => exact absurd is (by decide)
    | reply _ tracked =>
      rw [is] at tracked
      exact absurd tracked (by decide)
    | segment => exact absurd is (by decide)
    | icmp _ _ _ answers =>
      rw [is] at answers
      exact absurd answers (by decide)

open Tunnel in
/-- An address mask reply, which is neither an echo reply nor an error, is delivered although no
rule allows anything. -/
theorem inbound_delivers_maskReply :
    ¬∀ [Etherparse] [Documented] (dp after : DataPlane) (now : Instant) (draws : Nat → Draws)
      (origin : Option PeerId) (packets : List Bytes) (sessions : List Nat) (order : List PeerId)
      (result : InboundResult),
      (∀ info caps, dp.settings.packetFilter.canAccess info caps = false) →
      dp.processInboundFrom WgCrypto.toy true now draws origin packets sessions order =
        .ok (after, result) →
      ∀ transport b, (transport, b) ∈ result.toLocal → ∃ peer src dst,
        DeliveredFrom (fun number icmpType _ => isAnswer number icmpType) WgCrypto.toy true dp
          ⟨now, draws 0, .recvFrom origin packets sessions⟩ transport b peer src dst := by
  intro closed
  have heard : toyDelivers toyMaskReply := by decide +kernel
  obtain ⟨e, -, heard⟩ := heard.returns
  obtain ⟨made, ran, heard⟩ := heard.returns
  have := toySlicer_documented
  obtain ⟨_, _, _, delivered⟩ :=
    closed _ _ _ _ _ _ _ _ _ (fun _ _ => rfl) ran 7 toyMaskReply heard
  exact maskReply_ruled _ _ _ delivered.unruled

end TailscaleRs.Dataplane
