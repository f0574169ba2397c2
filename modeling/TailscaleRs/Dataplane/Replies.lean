import TailscaleRs.Dataplane.FailClosed

namespace TailscaleRs.Dataplane

open Net (IpAddr)
open TailscaleRs.Filter (IpProto L4Header)
open Time (Instant)
open Tunnel (PeerId Endpoint WgCrypto Halt Draws)
open Etherparse FlowCache

/-- The packet is no fragment, or the first one. -/
def startsDatagram (b : Bytes) : Prop := ∀ offset, fragmentOffset b = some offset → offset = 0

section Decoders

variable {b : Bytes} {packet : Decoded} {number : UInt8} {pkt : SlicedPacket}
  {ports : UInt16 × UInt16} {first4 : Option (UInt16 × UInt16 × L4Header)}

theorem isTracked_iff : isTracked (IpProto.ofByte number) = true ↔ number = 17 ∨ number = 132 := by
  simp [isTracked]

theorem fragmentVerdict_none [Etherparse] [Documented]
    (decoded : decodeInbound b = some packet) (starts : startsDatagram b)
    (tracked : isTracked packet.proto = true) :
    fragmentVerdict packet.proto packet.frag = none := by
  obtain ⟨reading, _⟩ := decode_reading decoded
  cases reading with
  | later offset stands positive =>
    rw [starts offset stands] at positive
    exact absurd positive (by decide)
  | unclassified proto =>
    rcases proto with is | is <;> rw [is] at tracked <;> exact absurd tracked (by decide)
  | header number sub named reads verdict => exact verdict

theorem HeaderOf.outboundPorts {sub : Bytes} (reads : HeaderOf packet number sub)
    (tracked : isTracked packet.proto = true) :
    outboundPorts packet.proto sub none = some (packet.src.port, packet.dst.port) := by
  have whole := reads.whole
  rw [reads.proto] at tracked ⊢
  obtain ⟨src, dst⟩ := reads.ports (.inr (isTracked_iff.mp tracked))
  rw [src, dst, Dataplane.outboundPorts]
  rcases isTracked_iff.mp tracked with rfl | rfl
  · have long : 8 ≤ sub.length := whole
    simp [Nat.not_lt.mpr long]
  · have long : 12 ≤ sub.length := whole
    simp [sctpPorts, Nat.not_lt.mpr long]

variable [Etherparse]

theorem outbound_of_base {fragmentPorts : Option (UInt16 × UInt16)} (sliced : fromIp b = some pkt)
    (base : outboundBase b pkt.net =
      some (packet.proto, packet.src.ip, packet.dst.ip, fragmentPorts))
    (ports : outboundPorts packet.proto pkt.net.payload.payload fragmentPorts =
      some (packet.src.port, packet.dst.port)) :
    outboundUdpOrSctpFlow b = some (packet.proto, packet.src, packet.dst) := by
  simp [outboundUdpOrSctpFlow, sliced, base, ports]

theorem outbound_ipv6 {slice : Ipv6Slice} {transport : Option TransportSlice} {proto : IpProto}
    {src dst : IpAddr} {frag : Option Fragment}
    (sliced : fromIp b = some ⟨.ipv6 slice, transport⟩) (of : slice.Of b)
    (carried : TransportOf slice.payload transport)
    (classified : classify b (.ipv6 slice) = (proto, src, dst, frag))
    (first : firstFragment4 proto slice.payload.payload frag = some first4)
    (read : portsOf proto slice.payload.payload transport first4 frag = some ports)
    (tracked : isTracked proto = true) :
    outboundUdpOrSctpFlow b = some (proto, ⟨src, ports.1⟩, ⟨dst, ports.2⟩) := by
  have known : proto ≠ ipprotoUnknown := by
    rintro rfl
    exact absurd tracked (by decide)
  obtain ⟨rfl, rfl, ⟨lead, rfl, is⟩ | ⟨unknown, -⟩ | ⟨lead, rfl, rfl⟩⟩ :=
    classify6_cases of classified
  · cases fragment : decode6Fragment b with
    | unknown => exact absurd (by rw [← is, fragment]) known
    | later => exact absurd (by rw [← is, fragment]) known
    | first inner srcPort dstPort l4 =>
      rw [fragment] at is read
      obtain rfl : proto = inner := is.symm
      cases read
      refine @outbound_of_base b ⟨proto, ⟨slice.sourceAddr, srcPort⟩,
        ⟨slice.destinationAddr, dstPort⟩, l4, none⟩ _ _ (some (srcPort, dstPort)) sliced ?_ ?_
      · simp [outboundBase, of.next, lead, fragment]
      · exact if_pos (by simpa [isTracked] using tracked)
  · exact absurd unknown known
  · cases first
    have plain : byteAt b 6 ∉ [hopByHop, route, Etherparse.fragment, auth, destOptions] := by
      rcases isTracked_iff.mp tracked with is | is <;> rw [is] <;> decide
    obtain ⟨_, header⟩ :=
      @header_base6 b slice.sourceAddr slice.destinationAddr transport ports slice read of plain
        carried
    refine @outbound_of_base b ⟨IpProto.ofByte (byteAt b 6), ⟨slice.sourceAddr, ports.1⟩,
      ⟨slice.destinationAddr, ports.2⟩, .unknown, none⟩ _ _ none sliced ?_ ?_
    · simp [outboundBase, of.next, lead]
    · exact header.outboundPorts tracked

/-- What an outbound packet of a tracked protocol is recorded as is what it would be read as on
the way in. -/
theorem outbound_agrees [Documented] (decoded : decodeInbound b = some packet)
    (starts : startsDatagram b) (tracked : isTracked packet.proto = true) :
    outboundUdpOrSctpFlow b = some (packet.proto, packet.src, packet.dst) := by
  obtain ⟨⟨net, transport⟩, first4, ports, proto, src, dst, frag, sliced, classified, first, read,
    rfl⟩ := decodeInbound_cases decoded
  have carried := Documented.transport sliced
  cases net with
  | ipv4 slice =>
    have of := Documented.ipv4 sliced
    obtain ⟨rfl, rfl, rfl, rfl⟩ := classified
    have start : slice.fragmentsOffset = 0 :=
      starts _ (by simp [fragmentOffset, of.family, of.offset])
    have header := header_ipv4 carried first read (named_ipv4 of start).1 start
    refine @outbound_of_base b (decoded4 slice transport first4 ports) _ _ none sliced ?_ ?_
    · simp [outboundBase, start, decoded4]
    · exact header.outboundPorts tracked
  | ipv6 slice =>
    exact outbound_ipv6 sliced (Documented.ipv6 sliced) carried classified first read tracked

end Decoders

/-- The flow of an inbound packet that the cache is asked for and has. -/
def foundTuple (flows : FlowCache) (packet : Decoded) : Option Tuple :=
  if dropBeforeRules packet.dst.ip || (fragmentVerdict packet.proto packet.frag).isSome then none
  else if (flows.admitsInbound packet.proto packet.src packet.dst).2 then
    some ⟨packet.proto, packet.src, packet.dst⟩
  else none

section Touched

variable {log : List Tuple} {flows : FlowCache}

theorem admitsInbound_follows (packet : Decoded) (follows : flows.Follows log) :
    (flows.admitsInbound packet.proto packet.src packet.dst).1.Follows
      (log ++ (if (flows.admitsInbound packet.proto packet.src packet.dst).2 then
        some ⟨packet.proto, packet.src, packet.dst⟩ else none : Option Tuple).toList) := by
  unfold admitsInbound
  split
  · cases hit : (flows.get ⟨packet.proto, packet.src, packet.dst⟩).2 with
    | true => exact follows.get_hit _ hit
    | false =>
      rw [get_miss _ hit]
      simpa using follows
  · simpa using follows

theorem admitsInbound_untracked {packet : Decoded} (untracked : isTracked packet.proto = false) :
    flows.admitsInbound packet.proto packet.src packet.dst = (flows, false) := by
  simp [admitsInbound, untracked]

theorem verdict_follows {filter : PacketFilter} {packet : Decoded} (follows : flows.Follows log) :
    (inboundFilterVerdict filter flows packet).1.Follows
      (log ++ (foundTuple flows packet).toList) := by
  have asked := admitsInbound_follows packet follows
  unfold inboundFilterVerdict foundTuple
  cases dropBeforeRules packet.dst.ip with
  | true => simpa using follows
  | false =>
    cases fragmentVerdict packet.proto packet.frag with
    | some verdict => simpa using follows
    | none =>
      by_cases unknown : packet.proto = ipprotoUnknown
      · rw [admitsInbound_untracked (by rw [unknown]; decide)]
        simpa [unknown] using follows
      by_cases tsmp : packet.proto = .tsmp
      · rw [admitsInbound_untracked (by rw [tsmp]; decide)]
        rw [tsmp] at unknown
        simpa [unknown, tsmp] using follows
      split_ifs <;> simp_all

end Touched

section Flows

variable [Etherparse]

def replyTuple (b : Bytes) : Option Tuple :=
  match outboundUdpOrSctpFlow b with
  | some (proto, src, dst) => if isTracked proto then some ⟨proto, dst, src⟩ else none
  | none => none

theorem recordFlow_follows {log : List Tuple} {flows : FlowCache} (b : Bytes)
    (follows : flows.Follows log) :
    (DataPlane.recordFlow flows b).Follows (log ++ (replyTuple b).toList) := by
  unfold DataPlane.recordFlow replyTuple
  cases outboundUdpOrSctpFlow b with
  | none => simpa using follows
  | some flow =>
    dsimp only
    rw [recordOutbound]
    split
    · exact follows.add _
    · simpa using follows

def Filtering.found (st : Filtering) (b : Bytes) : List Tuple :=
  match decodeInbound b with
  | none => []
  | some packet => (foundTuple st.flows packet).toList

section Batches

variable (filter : PacketFilter) (cfg : RejectConfig) (peer : PeerId) (packets : List Bytes)

def foundFromPeer (st : Filtering) : List Tuple :=
  trace (Filtering.one filter cfg peer) Filtering.found st packets

variable {filter}

theorem one_follows (log : List Tuple) (st : Filtering) (b : Bytes)
    (follows : st.flows.Follows log) :
    (st.one filter cfg peer b).flows.Follows (log ++ st.found b) := by
  unfold Filtering.found
  rcases one_cases filter st b with ⟨message, same, _⟩ | ⟨packet, decoded, _, same, _⟩
  · rw [same]
    cases decoded : decodeInbound b with
    | none => simpa using follows
    | some packet =>
      have untracked : isTracked packet.proto = false := by
        rw [message packet decoded]
        decide
      simpa [foundTuple, admitsInbound_untracked untracked] using follows
  · rw [same, decoded]
    exact verdict_follows follows

end Batches

namespace DataPlane

variable (dp : DataPlane) (toLocal : Queues)

/-- The packets of a peer that may come from it. -/
def fromPeer (peer : PeerId) : List Bytes :=
  ((toLocal peer).getD []).filter (dp.sourceAllowed peer)

def foundInBatches (order : List PeerId) : List Tuple :=
  trace
    (fun st peer => filterInboundFromPeer dp.settings.packetFilter dp.rejectConfig peer
      (dp.fromPeer toLocal peer) st)
    (fun st peer => foundFromPeer dp.settings.packetFilter dp.rejectConfig peer
      (dp.fromPeer toLocal peer) st)
    ⟨dp.flows, InboundHarvest.empty, []⟩ order

theorem filterBatches_follows {order : List PeerId} (log : List Tuple)
    (follows : dp.flows.Follows log) :
    (dp.filterBatches toLocal order).flows.Follows (log ++ dp.foundInBatches toLocal order) :=
  run_traced _ _ (fun log st => st.flows.Follows log)
    (fun log st peer => run_traced (Filtering.one _ dp.rejectConfig peer) Filtering.found
      (fun log st => st.flows.Follows log) (one_follows dp.rejectConfig peer) log st _)
    log ⟨dp.flows, InboundHarvest.empty, []⟩ order follows

/-- What happens to a data plane: packets in both directions, new settings, and whatever else is
done to the tunnel. -/
inductive Event where
  | outbound (now : Instant) (draws : Draws) (packets : List Bytes)
  | inbound (now : Instant) (draws : Nat → Draws) (origin : Option PeerId) (packets : List Bytes)
      (sessions : List Nat) (order : List PeerId)
  | configure (settings : Settings)
  | tunnel (wireguard : Endpoint)

variable (W : WgCrypto) (debug : Bool) (dp : DataPlane)

def step : Event → Except Halt DataPlane
  | .outbound now draws packets => do
      let (dp, _) ← dp.processOutbound W debug now draws packets
      return dp
  | .inbound now draws origin packets sessions order => do
      let (dp, _) ← dp.processInboundFrom W debug now draws origin packets sessions order
      return dp
  | .configure settings => .ok { dp with settings := settings }
  | .tunnel wireguard => .ok { dp with wireguard := wireguard }

def Event.recorded : Event → List Tuple
  | .outbound _ _ packets => (retainOutbound packets).filterMap replyTuple
  | _ => []

def found : Event → List Tuple
  | .inbound now draws origin packets sessions order =>
    match dp.wireguard.call W debug ⟨now, draws 0, .recvFrom origin packets sessions⟩ with
    | .ok (_, out) => dp.foundInBatches out.toLocal order
    | .error _ => []
  | _ => []

def touched (event : Event) : List Tuple :=
  event.recorded ++ dp.found W debug event

theorem recordFlows_follows (flows : FlowCache) (packets : List Bytes) (log : List Tuple)
    (follows : flows.Follows log) :
    (recordFlows flows packets).Follows (log ++ packets.filterMap replyTuple) := by
  unfold recordFlows
  induction packets generalizing flows log with
  | nil => simpa using follows
  | cons b rest ih =>
    have recorded := ih _ _ (recordFlow_follows b follows)
    cases reply : replyTuple b with
    | none => simpa [reply] using recorded
    | some tuple => simpa [reply] using recorded

variable {dp after : DataPlane} {now : Instant} {draws : Draws} {packets : List Bytes}
  {result : OutboundResult} {event : Event} {log : List Tuple} {flows : FlowCache} {tuple : Tuple}

theorem processOutbound_cases
    (ran : dp.processOutbound W debug now draws packets = .ok (after, result)) :
    after.flows = recordFlows dp.flows (retainOutbound packets) := by
  simp only [processOutbound, bind_ok] at ran
  obtain ⟨⟨wireguard, out⟩, _, is⟩ := ran
  cases is
  rfl

theorem step_follows (ran : dp.step W debug event = .ok after) (follows : dp.flows.Follows log) :
    after.flows.Follows (log ++ dp.touched W debug event) := by
  cases event with
  | outbound now draws packets =>
    simp only [step, bind_ok] at ran
    obtain ⟨⟨sent, result⟩, processed, is⟩ := ran
    cases is
    have recorded := recordFlows_follows dp.flows (retainOutbound packets) log follows
    rw [processOutbound_cases W debug processed]
    simpa [touched, Event.recorded, found] using recorded
  | inbound now draws origin packets sessions order =>
    simp only [step, bind_ok] at ran
    obtain ⟨⟨received, result⟩, processed, is⟩ := ran
    cases is
    obtain ⟨_, out, called, _, _, flows⟩ := processInboundFrom_cases processed
    rw [flows, touched, found, called]
    exact dp.filterBatches_follows out.toLocal log follows
  | configure settings =>
    cases ran
    simpa [touched, Event.recorded, found] using follows
  | tunnel wireguard =>
    cases ran
    simpa [touched, Event.recorded, found] using follows

theorem run_follows {dp last : DataPlane} {events : List Event}
    (ran : events.foldlM (step W debug) dp = .ok last) (follows : dp.flows.Follows log) :
    last.flows.Follows (log ++ traceM (step W debug) (touched W debug) dp events) := by
  have kept (before : List Tuple) (s : DataPlane) (event : Event) (_ : event ∈ events)
      (held : s.flows.Follows before) : Yields
        (fun after => after.flows.Follows (before ++ touched W debug s event))
        (step W debug s event) := by
    cases stepped : s.step W debug event with
    | error halt => trivial
    | ok after => exact step_follows W debug stepped held
  exact (Safe.foldlM_traced _ events kept log dp follows).out ran

theorem recordFlow_holds {b : Bytes} (held : (recordFlow flows b).holds tuple = true) :
    flows.holds tuple = true ∨ replyTuple b = some tuple := by
  unfold recordFlow at held
  cases flow : outboundUdpOrSctpFlow b with
  | none =>
    rw [flow] at held
    exact .inl held
  | some flow' =>
    rw [flow] at held
    dsimp only [recordOutbound] at held
    split at held
    · rename_i tracked
      rcases add_holds held with rfl | old
      · exact .inr (by simp [replyTuple, flow, tracked])
      · exact .inl old
    · exact .inl held

theorem recordFlows_holds (held : (recordFlows flows packets).holds tuple = true) :
    flows.holds tuple = true ∨ tuple ∈ packets.filterMap replyTuple := by
  induction packets generalizing flows with
  | nil => exact .inl held
  | cons b rest ih =>
    rw [List.mem_filterMap]
    rcases ih held with old | new
    · rcases recordFlow_holds old with older | reply
      · exact .inl older
      · exact .inr ⟨b, List.mem_cons_self, reply⟩
    · obtain ⟨packet, member, reply⟩ := List.mem_filterMap.mp new
      exact .inr ⟨packet, List.mem_cons_of_mem b member, reply⟩

theorem step_holds (ran : dp.step W debug event = .ok after)
    (held : after.flows.holds tuple = true) :
    dp.flows.holds tuple = true ∨ tuple ∈ event.recorded := by
  cases event with
  | outbound now draws packets =>
    simp only [step, bind_ok] at ran
    obtain ⟨⟨sent, result⟩, processed, is⟩ := ran
    cases is
    rw [processOutbound_cases W debug processed] at held
    exact recordFlows_holds held
  | inbound now draws origin packets sessions order =>
    simp only [step, bind_ok] at ran
    obtain ⟨⟨received, result⟩, processed, is⟩ := ran
    cases is
    obtain ⟨_, out, _, _, _, flows⟩ := processInboundFrom_cases processed
    rw [flows, dp.filterBatches_sound.unchanged] at held
    exact .inl held
  | configure settings =>
    cases ran
    exact .inl held
  | tunnel wireguard =>
    cases ran
    exact .inl held

theorem run_holds {dp last : DataPlane} {events : List Event}
    (ran : events.foldlM (step W debug) dp = .ok last) (held : last.flows.holds tuple = true) :
    dp.flows.holds tuple = true ∨ ∃ event ∈ events, tuple ∈ event.recorded := by
  induction events generalizing dp with
  | nil =>
    cases ran
    exact .inl held
  | cons event rest ih =>
    rw [List.foldlM_cons, bind_ok] at ran
    obtain ⟨mid, stepped, ran⟩ := ran
    rcases ih ran with old | ⟨later, member, recorded⟩
    · rcases step_holds W debug stepped old with older | new
      · exact .inl older
      · exact .inr ⟨event, List.mem_cons_self, new⟩
    · exact .inr ⟨later, List.mem_cons_of_mem event member, recorded⟩

theorem sent_holds {dp sent last : DataPlane} {batch more : List Bytes} {p : Bytes}
    {later : List Event} (follows : dp.flows.Follows log)
    (processed : dp.processOutbound W debug now draws (batch ++ p :: more) = .ok (sent, result))
    (reply : replyTuple p = some tuple) (passes : outboundPacketCarriesTsmp p = false)
    (ran : later.foldlM (step W debug) sent = .ok last)
    (few : (((retainOutbound more).filterMap replyTuple ++
      traceM (step W debug) (touched W debug) sent later).filter (· ≠ tuple)).dedup.length <
        lruMax) :
    last.flows.holds tuple = true := by
  have recorded := recordFlows_follows dp.flows (retainOutbound (batch ++ p :: more)) log follows
  rw [← processOutbound_cases W debug processed] at recorded
  have followed := run_follows W debug ran recorded
  have split : log ++ (retainOutbound (batch ++ p :: more)).filterMap replyTuple ++
      traceM (step W debug) (touched W debug) sent later =
      (log ++ (retainOutbound batch).filterMap replyTuple) ++ tuple ::
        ((retainOutbound more).filterMap replyTuple ++
          traceM (step W debug) (touched W debug) sent later) := by
    simp [retainOutbound, passes, reply]
  rw [split] at followed
  rw [← get_snd, followed.get_iff]
  exact mem_take_recent few

/-- Once a packet of a tracked protocol has gone out, a packet of some kind that is read with the
same protocol and the ends exchanged is admitted whatever the rules say, as long as fewer other
flows were recorded or found since than the cache can hold. -/
def AdmitsReplies (kind : Bytes → Prop) : Prop :=
  ∀ now draws batch p more sent result,
    dp.processOutbound W debug now draws (batch ++ p :: more) = .ok (sent, result) →
  ∀ out, decodeInbound p = some out → startsDatagram p → isTracked out.proto = true →
    outboundPacketCarriesTsmp p = false →
  ∀ later last, later.foldlM (step W debug) sent = .ok last →
    (((retainOutbound more).filterMap replyTuple ++
      traceM (step W debug) (touched W debug) sent later).filter
        (· ≠ ⟨out.proto, out.dst, out.src⟩)).dedup.length < lruMax →
  ∀ q back, decodeInbound q = some back → kind q →
    back.proto = out.proto → back.src = out.dst → back.dst = out.src →
    dropBeforeRules back.dst.ip = false →
  ∀ filter, (inboundFilterVerdict filter last.flows back).2 = true

variable [Documented]

theorem admitsReplies_of_follows {dp : DataPlane} (follows : dp.flows.Follows log) :
    dp.AdmitsReplies W debug startsDatagram := by
  intro now draws batch p more sent result processed out decoded starts tracked passes later last
    ran few q back decodedBack startsBack proto src dst allowed filter
  have reply : replyTuple p = some ⟨out.proto, out.dst, out.src⟩ := by
    simp [replyTuple, outbound_agrees decoded starts tracked, tracked]
  have held := sent_holds W debug follows processed reply passes ran few
  rw [← proto] at tracked
  rw [← proto, ← src, ← dst] at held
  refine (verdict_iff back).mpr ⟨allowed, .inr ⟨?_, ?_, ?_⟩⟩
  · exact fragmentVerdict_none decodedBack startsBack tracked
  · intro unknown
    rw [unknown] at tracked
    exact absurd tracked (by decide)
  · exact .inl (.inr (.inl ⟨tracked, held⟩))

/-- In every history: the two indexes of the cache hold the same flows, and these are the most
recent of those recorded or found; a flow that was never recorded is never found; and replies that
are no later fragments are admitted. -/
theorem replies_admitted (wireguard : Endpoint) (settings : Settings) (events : List Event)
    {dp : DataPlane}
    (ran : events.foldlM (step W debug) ⟨wireguard, settings, empty⟩ = .ok dp) :
    dp.flows.Follows (traceM (step W debug) (touched W debug)
      ⟨wireguard, settings, empty⟩ events) ∧
    (∀ back : Decoded, (dp.flows.admitsInbound back.proto back.src back.dst).2 = true →
      ∃ event ∈ events, ⟨back.proto, back.src, back.dst⟩ ∈ event.recorded) ∧
    dp.AdmitsReplies W debug startsDatagram := by
  have follows := run_follows W debug ran follows_empty
  refine ⟨follows, fun back admitted => ?_, admitsReplies_of_follows W debug follows⟩
  rw [admitsInbound_snd, Bool.and_eq_true] at admitted
  rcases run_holds W debug ran admitted.2 with never | recorded
  · cases never
  · exact recorded

end DataPlane

end Flows

attribute [local instance] toySlicer

def toyQuestion : Bytes :=
  [0x45, 0, 0, 32, 0, 0, 0, 0, 64, 17, 0, 0, 100, 64, 0, 1, 100, 64, 0, 2] ++
    [0x13, 0x88, 0, 53, 0, 12, 0, 0, 1, 2, 3, 4]

def toyAnswer : Bytes := toyPacket 17 [0, 53, 0x13, 0x88, 0, 12, 0, 0, 5, 6, 7, 8]

def toyDatagram (src dst : Control.SocketAddr) : Decoded :=
  ⟨.udp, src, dst, .unknown, some (.v4 ⟨0, false⟩)⟩

def toyAsker : Control.SocketAddr := ⟨(Control.Node.numbered 1).tailnetAddress.ipv4.addr, 5000⟩
def toyServer : Control.SocketAddr := ⟨(Control.Node.numbered 2).tailnetAddress.ipv4.addr, 53⟩

theorem startsDatagram_of_zero {b : Bytes} (zero : fragmentOffset b = some 0) :
    startsDatagram b := by
  intro offset stands
  exact (Option.some.inj (zero.symm.trans stands)).symm

open Tunnel in
/-- The near node sends a packet. -/
def toyOutbound (b : Bytes) : Except Halt (DataPlane × OutboundResult) :=
  (toyPlane (Endpoint.new WgCrypto.toy ⟨[], []⟩)).processOutbound WgCrypto.toy true 0
    (toyAt 0 0 (.removePeer toyFar)).draws [b]

open Tunnel in
/-- The near node asks and takes the answer, although no rule allows anything. -/
theorem replies_admitted_toyAnswer :
    Returns (fun made => decodeInbound toyAnswer = some (toyDatagram toyServer toyAsker) ∧
        ∀ filter, (inboundFilterVerdict filter made.1.flows (toyDatagram toyServer toyAsker)).2 =
          true)
      (toyOutbound toyQuestion) := by
  have ran : Returns (fun _ => True) (toyOutbound toyQuestion) := by decide +kernel
  obtain ⟨made, processed, -⟩ := ran.returns
  have asked : decodeInbound toyQuestion = some (toyDatagram toyAsker toyServer) := by decide
  have answered : decodeInbound toyAnswer = some (toyDatagram toyServer toyAsker) := by decide
  have := toySlicer_documented
  have replies := (DataPlane.replies_admitted WgCrypto.toy true
    (Endpoint.new WgCrypto.toy ⟨[], []⟩) (toyPlane (Endpoint.new WgCrypto.toy ⟨[], []⟩)).settings
    [] rfl).2.2
  rw [processed]
  exact ⟨answered, replies 0 _ [] toyQuestion [] made.1 made.2 processed _ asked
    (startsDatagram_of_zero (by decide)) (by decide) (by decide) [] made.1 rfl
    (by simp [DataPlane.retainOutbound, traceM, lruMax]) toyAnswer _ answered
    (startsDatagram_of_zero (by decide)) rfl rfl rfl (by decide)⟩

/-- A packet between the ports of number zero, and a later fragment that comes back. -/
def toyUnported : Bytes :=
  [0x45, 0, 0, 28, 0, 0, 0, 0, 64, 17, 0, 0, 100, 64, 0, 1, 100, 64, 0, 2] ++
    [0, 0, 0, 0, 0, 8, 0, 0]

def toyFragment : Bytes :=
  [0x45, 0, 0, 28, 0, 0, 0, 1, 64, 17, 0, 0, 100, 64, 0, 2, 100, 64, 0, 1] ++ List.replicate 8 7

open Tunnel in
/-- A later fragment has no ports, and is read with zeros; one that reaches into the header is
dropped before the flows are asked. -/
theorem later_fragment_refused :
    ¬∀ [Etherparse] [Documented] wireguard settings (events : List DataPlane.Event) dp,
      events.foldlM (DataPlane.step WgCrypto.toy true) ⟨wireguard, settings, empty⟩ = .ok dp →
      dp.AdmitsReplies WgCrypto.toy true fun _ => True := by
  intro admits
  have ran : Returns (fun _ => True) (toyOutbound toyUnported) := by decide +kernel
  obtain ⟨made, processed, -⟩ := ran.returns
  have sent : decodeInbound toyUnported =
      some (toyDatagram ⟨toyAsker.ip, 0⟩ ⟨toyServer.ip, 0⟩) := by decide
  have came : decodeInbound toyFragment =
      some { toyDatagram ⟨toyServer.ip, 0⟩ ⟨toyAsker.ip, 0⟩ with
        frag := some (.v4 ⟨1, false⟩) } := by decide
  have := toySlicer_documented
  have admitted := admits _ _ [] _ rfl 0 _ [] toyUnported [] made.1 made.2 processed _ sent
    (startsDatagram_of_zero (by decide)) (by decide) (by decide) [] made.1 rfl
    (by simp [DataPlane.retainOutbound, traceM, lruMax]) toyFragment _ came trivial rfl rfl rfl
    (by decide) ⟨fun _ _ => false, false⟩
  obtain ⟨-, late | ⟨undecided, -⟩⟩ := (verdict_iff _).mp admitted
  · exact absurd late (by decide)
  · exact absurd undecided (by decide)

end TailscaleRs.Dataplane
