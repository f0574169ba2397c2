import TailscaleRs.Dataplane.FailClosed

namespace TailscaleRs.Dataplane

open Net (IpAddr Family)
open TailscaleRs.Filter (IpProto)
open Etherparse
open IpProto (ofByte)

/-- The protocol that the base header names, with what follows that header; behind the leading
fragment header of a first fragment, the protocol that the fragment header names. -/
def baseHeader (b : Bytes) : Option (UInt8 × Bytes) :=
  match ipFamily b with
  | some .v4 => some (byteAt b 9, b.drop (headerLen4 b))
  | some .v6 =>
    if byteAt b 6 = fragment then
      if u16At b 42 >>> 3 = 0 then some (byteAt b 40, b.drop 48) else none
    else some (byteAt b 6, b.drop 40)
  | none => none

/-- An IPv4 packet whose header names an authentication header. -/
def wrapped (b : Bytes) : Prop := ipFamily b = some .v4 ∧ byteAt b 9 = auth

instance wrapped.decidable (b : Bytes) : Decidable (wrapped b) :=
  inferInstanceAs (Decidable (_ ∧ _))

/-- An IPv4 packet whose authentication header names another protocol that is acted upon: that of
the messages between nodes, or one that is judged by its own header. -/
def misnamed (b : Bytes) : Prop :=
  wrapped b ∧ byteAt b (headerLen4 b) ≠ auth ∧
    (byteAt b (headerLen4 b) = 99 ∨
      byteAt b (headerLen4 b) ≠ 0 ∧ u16At b 6 &&& 0x1fff = 0 ∧
        ∀ dst, getDstAddr b = some dst → dropBeforeRules dst = false)

theorem Named.baseHeader {b sub : Bytes} {number : UInt8} (unwrapped : ¬wrapped b)
    (named : Named b number sub) : baseHeader b = some (number, sub) := by
  unfold Dataplane.baseHeader
  cases named with
  | base4 family => simp only [family]
  | auth4 family start is => exact absurd ⟨family, is⟩ unwrapped
  | base6 family plain => simp only [family, if_neg plain]
  | fragment6 family lead start => simp only [family, if_pos lead, if_pos start]

/-- What the verdict on a packet rests on: the protocol of the base header, or the offset of a
later fragment, or nothing, as it is dropped. -/
inductive Basis (b : Bytes) (packet : Decoded) : Prop where
  | protocol (number : UInt8) (sub : Bytes) (base : baseHeader b = some (number, sub))
      (proto : packet.proto = IpProto.ofByte number)
  | later (offset : UInt16) (stands : fragmentOffset b = some offset) (positive : 0 < offset)
      (verdict : ∀ filter flows, (inboundFilterVerdict filter flows packet).2 =
        (decide (10 ≤ offset) && !dropBeforeRules packet.dst.ip))
  | refused (verdict : ∀ filter flows, (inboundFilterVerdict filter flows packet).2 = false)

/-- A packet is judged by the protocol of its base header alone, and a packet that may be sent is
none of the messages between nodes. -/
structure ByBaseHeader (b : Bytes) (packet : Decoded) : Prop where
  basis : Basis b packet
  accepted : ∀ filter flows, (inboundFilterVerdict filter flows packet).2 = true →
    (∃ offset, fragmentOffset b = some offset ∧ 10 ≤ offset) ∨
    ∃ number sub, baseHeader b = some (number, sub) ∧ HeaderOf packet number sub ∧
      (Early countsAsAnswer flows packet.src.ip packet.dst.ip sub number ∨
        filter.canAccess packet.info [] = true)
  sent : ∀ packets, b ∈ DataPlane.retainOutbound packets → packet.proto ≠ .tsmp ∧ consumed b = false

section Verdicts

variable {b : Bytes} {packet : Decoded}

theorem verdict_of_fragment {decided : Bool}
    (verdict : fragmentVerdict packet.proto packet.frag = some decided)
    (filter : PacketFilter) (flows : FlowCache) :
    (inboundFilterVerdict filter flows packet).2 = (decided && !dropBeforeRules packet.dst.ip) := by
  rw [Bool.eq_iff_iff, verdict_iff, verdict]
  simp [and_comm]

theorem fragmentVerdict_start {proto : IpProto} {more : Bool} (other : proto ≠ .tsmp) :
    fragmentVerdict proto (some (.v4 ⟨0, more⟩)) = none := by
  simp [fragmentVerdict, other]

variable [Etherparse] [Documented]

theorem decode_basis (unwrapped : ¬wrapped b) (decoded : decodeInbound b = some packet) :
    Basis b packet := by
  obtain ⟨reading, _, _⟩ := decode_reading decoded
  cases reading with
  | later offset stands positive verdict =>
    exact .later offset stands positive (verdict_of_fragment verdict)
  | unclassified _ verdict =>
    refine .refused fun filter flows => ?_
    rcases verdict with dropped | ⟨undecided, unknown⟩
    · exact verdict_of_fragment dropped filter flows
    · rw [← Bool.not_eq_true, verdict_iff, undecided]
      simp [unknown]
  | header number sub named reads verdict =>
    exact .protocol number sub (named.baseHeader unwrapped) reads.proto

end Verdicts

section Guard

variable {b : Bytes}

theorem addrAt_length {family : Family} {i : Nat} {addr : IpAddr}
    (read : addrAt family b i = some addr) : i + family.size ≤ b.length := by
  unfold addrAt at read
  split at read
  · rename_i sized
    rw [List.length_take, List.length_drop] at sized
    have positive : 0 < family.size := by cases family <;> decide
    omega
  · cases read

theorem carriesTsmp_v4 (family : ipFamily b = some .v4) (whole : 20 ≤ b.length)
    (is : byteAt b 9 = 99) : outboundPacketCarriesTsmp b = true := by
  simp [outboundPacketCarriesTsmp, family, whole, is]

theorem carriesTsmp_v6 (family : ipFamily b = some .v6) (whole : 40 ≤ b.length)
    (is : byteAt b 6 = 99) : outboundPacketCarriesTsmp b = true := by
  simp [outboundPacketCarriesTsmp, family, Nat.not_lt.mpr whole, is]

theorem carriesTsmp_fragment6 (family : ipFamily b = some .v6) (whole : 40 ≤ b.length)
    (lead : byteAt b 6 = fragment) (is : byteAt b 40 = 99) :
    outboundPacketCarriesTsmp b = true := by
  have found : b[40]? = some 99 := by
    cases at40 : b[40]? with
    | none => simp [byteAt, List.getD_eq_getElem?_getD, at40] at is
    | some byte => simpa [byteAt, List.getD_eq_getElem?_getD, at40] using is
  simp [outboundPacketCarriesTsmp, family, Nat.not_lt.mpr whole, lead, found]

/-- The message parsers read no packet that may be sent. -/
theorem carriesTsmp_of_tsmpBody (read : (Tsmp.tsmpBody b).isSome) :
    outboundPacketCarriesTsmp b = true := by
  unfold Tsmp.tsmpBody at read
  split at read
  · rename_i family
    unfold Tsmp.tsmpBody4 at read
    dsimp only at read
    split at read
    · cases read
    · rename_i sound
      simp only [not_or, not_not] at sound
      exact carriesTsmp_v4 family (by omega) sound.2.1
  · rename_i family
    unfold Tsmp.tsmpBody6 at read
    dsimp only at read
    split at read
    · cases read
    · rename_i sound
      simp only [not_or, not_not] at sound
      exact carriesTsmp_v6 family (by omega) sound.2.1
  · cases read

theorem passes_of_retained {packets : List Bytes}
    (retained : b ∈ DataPlane.retainOutbound packets) : outboundPacketCarriesTsmp b = false := by
  simpa using (List.mem_filter.mp retained).2

theorem not_consumed (passes : outboundPacketCarriesTsmp b = false) : consumed b = false := by
  have unread : Tsmp.tsmpBody b = none := by
    rw [← Option.not_isSome_iff_eq_none]
    intro read
    rw [carriesTsmp_of_tsmpBody read] at passes
    cases passes
  simp [consumed, Tsmp.DiscoKeyAdvertisement.parse, Tsmp.TailscaleRejectedHeader.parse, unread]

/-- A packet that is read as a message between nodes is one that the guard catches. -/
theorem carriesTsmp_of_proto [Etherparse] [Documented] {packet : Decoded} (unwrapped : ¬wrapped b)
    (decoded : decodeInbound b = some packet) (tsmp : packet.proto = .tsmp) :
    outboundPacketCarriesTsmp b = true := by
  obtain ⟨⟨net, transport⟩, _, _, proto, _, _, _, sliced, classified, _, _, rfl⟩ :=
    decodeInbound_cases decoded
  cases net with
  | ipv4 slice =>
    have of := Documented.ipv4 sliced
    obtain ⟨number, -⟩ := of.plain fun is => unwrapped ⟨of.family, is⟩
    simp only [classify, Prod.mk.injEq, number] at classified
    exact carriesTsmp_v4 of.family (addrAt_length of.destination)
      (ofByte_eq_tsmp.mp (classified.1.trans tsmp))
  | ipv6 slice =>
    have of := Documented.ipv6 sliced
    have whole := addrAt_length of.destination
    subst tsmp
    obtain ⟨-, -, ⟨lead, -, is⟩ | ⟨unknown, -⟩ | ⟨-, -, is⟩⟩ := classify6_cases of classified
    · refine carriesTsmp_fragment6 of.family whole lead ?_
      cases found : decode6Fragment b with
      | unknown =>
        rw [found] at is
        exact absurd is (by decide)
      | later =>
        rw [found] at is
        exact absurd is (by decide)
      | first inner srcPort dstPort l4 =>
        rcases decode6Fragment_cases b with none | ⟨_, _, later⟩ | ⟨_, first⟩
        · cases found.symm.trans none
        · cases found.symm.trans later
        · have reads := @headerOf_first6 _ _ slice.sourceAddr slice.destinationAddr none _ _ _ _
            (first.symm.trans found)
          rw [found] at is
          exact ofByte_eq_tsmp.mp (reads.proto.symm.trans is)
    · exact absurd unknown (by decide)
    · exact carriesTsmp_v6 of.family whole (ofByte_eq_tsmp.mp is.symm)

end Guard

section Exact

variable [Etherparse] [Documented] {b : Bytes} {packet : Decoded}

theorem byBaseHeader_of_unwrapped (unwrapped : ¬wrapped b)
    (decoded : decodeInbound b = some packet) : ByBaseHeader b packet where
  basis := decode_basis unwrapped decoded
  accepted := by
    intro filter flows admitted
    rcases admitted_cases decoded admitted with later | ⟨number, sub, named, reads, why⟩
    · exact .inl later
    · exact .inr ⟨number, sub, named.baseHeader unwrapped, reads, why⟩
  sent := by
    intro packets retained
    have passes := passes_of_retained retained
    refine ⟨fun tsmp => ?_, not_consumed passes⟩
    rw [carriesTsmp_of_proto unwrapped decoded tsmp] at passes
    cases passes

/-- What is read of a packet behind an authentication header. -/
theorem wrapped_reads (is : wrapped b) (decoded : decodeInbound b = some packet) :
    packet.proto = ofByte (byteAt b (headerLen4 b)) ∧
      (∃ more, packet.frag = some (.v4 ⟨u16At b 6 &&& 0x1fff, more⟩)) ∧
      (byteAt b (headerLen4 b) = auth → packet.l4 = .unknown) := by
  obtain ⟨⟨net, transport⟩, first4, _, _, _, _, _, sliced, classified, first, _, rfl⟩ :=
    decodeInbound_cases decoded
  cases net with
  | ipv6 slice => cases is.1.symm.trans (Documented.ipv6 sliced).family
  | ipv4 slice =>
    have of := Documented.ipv4 sliced
    obtain ⟨number, -⟩ := of.stepped is.2
    obtain ⟨rfl, rfl, rfl, rfl⟩ := classified
    dsimp only at first ⊢
    rw [number] at first ⊢
    refine ⟨rfl, ⟨_, by rw [of.offset]⟩, fun nested => ?_⟩
    rw [nested] at first ⊢
    dsimp only [firstFragment4] at first
    split at first
    · obtain ⟨⟨_, _, l4⟩, held, rfl⟩ := Option.map_eq_some_iff.mp first
      cases held
      rfl
    · cases first
      rcases transport with _ | (_ | _ | _ | _) <;> rfl

/-- An authentication header in an authentication header is judged by what the rules say of it. -/
theorem byBaseHeader_of_nested (is : wrapped b) (nested : byteAt b (headerLen4 b) = auth)
    (decoded : decodeInbound b = some packet) : ByBaseHeader b packet := by
  obtain ⟨proto, -, unread⟩ := wrapped_reads is decoded
  rw [nested] at proto
  have base : baseHeader b = some (auth, b.drop (headerLen4 b)) := by
    simp only [baseHeader, is.1, is.2]
  refine ⟨.protocol _ _ base proto, fun filter flows admitted => ?_, fun packets retained => ?_⟩
  · rcases admitted_cases decoded admitted with later | ⟨number, sub, named, reads, why⟩
    · exact .inl later
    · obtain rfl : number = auth := (ofByte_inj _).mp (reads.proto.symm.trans proto)
      refine .inr ⟨_, _, base, ⟨proto, Nat.zero_le _, ?_, ?_, ?_⟩, .inr ?_⟩
      · exact fun tcp => absurd tcp (by decide)
      · exact fun ported => absurd ported (by decide)
      · intro icmpType icmpCode icmp
        cases (unread nested).symm.trans icmp
      · rcases why with early | allowed
        · exact absurd (by decide) early.ends
        · exact allowed
  · rw [proto]
    exact ⟨by decide, not_consumed (passes_of_retained retained)⟩

/-- Another protocol than that of the messages between nodes, where nothing hangs on it. -/
theorem byBaseHeader_of_unjudged (is : wrapped b) (message : byteAt b (headerLen4 b) ≠ 99)
    (decoded : decodeInbound b = some packet)
    (unjudged : byteAt b (headerLen4 b) = 0 ∨ u16At b 6 &&& 0x1fff ≠ 0 ∨
      dropBeforeRules packet.dst.ip = true) : ByBaseHeader b packet := by
  obtain ⟨proto, ⟨more, frag⟩, -⟩ := wrapped_reads is decoded
  have other : packet.proto ≠ .tsmp := by
    rw [proto]
    exact fun tsmp => message (ofByte_eq_tsmp.mp tsmp)
  have sent (packets : List Bytes) (retained : b ∈ DataPlane.retainOutbound packets) :
      packet.proto ≠ .tsmp ∧ consumed b = false :=
    ⟨other, not_consumed (passes_of_retained retained)⟩
  by_cases start : u16At b 6 &&& 0x1fff = 0
  · have refused (filter : PacketFilter) (flows : FlowCache) :
        (inboundFilterVerdict filter flows packet).2 = false := by
      rw [start] at frag
      rw [← Bool.not_eq_true, verdict_iff, frag, fragmentVerdict_start other]
      rcases unjudged with zero | late | dropped
      · simp [proto, zero]
      · exact absurd start late
      · simp [dropped]
    refine ⟨.refused refused, fun filter flows admitted => ?_, sent⟩
    rw [refused] at admitted
    cases admitted
  · have positive : 0 < u16At b 6 &&& 0x1fff := UInt16.pos_iff_ne_zero.mpr start
    have stands : fragmentOffset b = some (u16At b 6 &&& 0x1fff) := by simp [fragmentOffset, is.1]
    have verdict := @verdict_of_fragment packet (decide (minFragBlks ≤ u16At b 6 &&& 0x1fff))
      (by simp [frag, fragmentVerdict, positive])
    refine ⟨.later _ stands positive verdict, fun filter flows admitted => ?_, sent⟩
    rw [verdict, Bool.and_eq_true, decide_eq_true_eq] at admitted
    exact .inl ⟨_, stands, admitted.1⟩

theorem not_byBaseHeader_of_misnamed (hidden : misnamed b)
    (decoded : decodeInbound b = some packet) : ¬ByBaseHeader b packet := by
  intro judged
  obtain ⟨is, other, acted⟩ := hidden
  obtain ⟨proto, ⟨more, frag⟩, -⟩ := wrapped_reads is decoded
  by_cases tsmp : byteAt b (headerLen4 b) = 99
  · have passes : b ∈ DataPlane.retainOutbound [b] := by
      simp [DataPlane.retainOutbound, outboundPacketCarriesTsmp, is.1, is.2, auth]
    exact (judged.sent [b] passes).1 (by rw [proto, tsmp]; rfl)
  · obtain ⟨known, start, kept⟩ := acted.resolve_left tsmp
    cases judged.basis with
    | protocol number sub base named =>
      simp only [baseHeader, is.1, is.2, Option.some.injEq, Prod.mk.injEq] at base
      rw [proto, ofByte_inj, ← base.1] at named
      exact other named
    | later offset stands positive =>
      simp only [fragmentOffset, is.1, Option.some.injEq] at stands
      rw [← stands, start] at positive
      exact absurd positive (by decide)
    | refused verdict =>
      obtain ⟨-, -, destination⟩ := decode_reading decoded
      have admitted :
          (inboundFilterVerdict ⟨fun _ _ => true, false⟩ FlowCache.empty packet).2 = true := by
        rw [start] at frag
        refine (verdict_iff packet).mpr ⟨kept _ destination, .inr ⟨?_, ?_, .inr rfl⟩⟩
        · rw [frag, fragmentVerdict_start]
          rw [proto]
          exact fun message => tsmp (ofByte_eq_tsmp.mp message)
        · rw [proto]
          exact fun unknown => known (ofByte_eq_unknown.mp unknown)
      rw [verdict] at admitted
      cases admitted

/-- A packet is judged by the protocol of its base header, and none that may be sent is read as a
message between nodes, exactly if no authentication header of IPv4 hides a protocol that is acted
upon. -/
theorem byBaseHeader_iff (decoded : decodeInbound b = some packet) :
    ByBaseHeader b packet ↔ ¬misnamed b := by
  refine ⟨fun judged hidden => not_byBaseHeader_of_misnamed hidden decoded judged, fun apart => ?_⟩
  by_cases is : wrapped b
  · by_cases nested : byteAt b (headerLen4 b) = auth
    · exact byBaseHeader_of_nested is nested decoded
    · obtain ⟨-, -, destination⟩ := decode_reading decoded
      simp only [misnamed, is, nested, ne_eq, not_false_eq_true, true_and, not_or, not_and] at apart
      refine byBaseHeader_of_unjudged is apart.1 decoded ?_
      by_contra judged
      simp only [not_or, not_not, Bool.not_eq_true] at judged
      refine apart.2 judged.1 judged.2.1 fun dst held => ?_
      rw [← Option.some.inj (destination.symm.trans held)]
      exact judged.2.2
  · exact byBaseHeader_of_unwrapped is decoded

end Exact

attribute [local instance] toySlicer

/-- A segment, which is judged as one. -/
theorem byBaseHeader_iff_toySegment :
    ¬misnamed toySegment ∧ ∃ packet, decodeInbound toySegment = some packet ∧
      packet.proto = .tcp ∧ ByBaseHeader toySegment packet := by
  have apart : ¬misnamed toySegment := fun hidden => absurd hidden.1 (by decide)
  have read : (decodeInbound toySegment).map Decoded.proto = some .tcp := by decide
  obtain ⟨packet, decoded, tcp⟩ := Option.map_eq_some_iff.mp read
  have := toySlicer_documented
  exact ⟨apart, packet, decoded, tcp, (byBaseHeader_iff decoded).mpr apart⟩

/-- A message between nodes behind an authentication header. -/
def toyWrapped : Bytes :=
  toyPacket auth ([99, 4] ++ List.replicate 22 0 ++ [0x70] ++ List.replicate 19 1)

/-- The guard on outbound packets lets it through, a receiver reads it as a message between nodes,
and delivers it although no rule allows anything. -/
theorem wrapped_message_delivered :
    (¬∀ [Etherparse] [Documented] b packet, decodeInbound b = some packet →
      ByBaseHeader b packet) ∧ toyDelivers toyWrapped := by
  constructor
  · intro named
    have read : (decodeInbound toyWrapped).map Decoded.proto = some .tsmp := by decide
    obtain ⟨packet, decoded, tsmp⟩ := Option.map_eq_some_iff.mp read
    have := toySlicer_documented
    exact ((named toyWrapped packet decoded).sent [toyWrapped] (by decide)).1 tsmp
  · decide +kernel

end TailscaleRs.Dataplane
