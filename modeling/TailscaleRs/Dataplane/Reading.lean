import TailscaleRs.Dataplane.Inbound

namespace TailscaleRs.Dataplane

open List
open Net (IpAddr)
open TailscaleRs.Filter (IpProto L4Header)
open Etherparse
open IpProto (ofByte)
open Option (some map_eq_some_iff bind_eq_bind bind_eq_some_iff)

section Bytes

variable {a b : Bytes} {i n : Nat}

@[simp] theorem byteAt_drop : byteAt (b.drop n) i = byteAt b (n + i) := by
  simp [byteAt]

@[simp] theorem u16At_drop : u16At (b.drop n) i = u16At b (n + i) := by
  simp [u16At, Nat.add_assoc]

theorem byteAt_of_front (pre : a <+: b) (inside : i < a.length) : byteAt a i = byteAt b i := by
  obtain ⟨rest, rfl⟩ := pre
  simp [byteAt, getElem?_append_left inside]

theorem u16At_of_front (pre : a <+: b) (inside : i + 1 < a.length) : u16At a i = u16At b i := by
  rw [u16At, u16At, byteAt_of_front pre (by omega), byteAt_of_front pre inside]

theorem tcpFlags_eq (inside : 14 ≤ b.length) : tcpFlags b = .tcp (byteAt b 13) := by
  have found : b[13]? = some (byteAt b 13) := by
    rw [byteAt, getD_eq_getElem?_getD, getElem?_eq_getElem (by omega), Option.getD_some]
  rw [tcpFlags, found]

end Bytes

/-- The transport header that the bytes of a packet name, past a leading authentication header
(IPv4) or the fragment header of a first fragment (IPv6). -/
inductive Named (b : Bytes) : UInt8 → Bytes → Prop where
  | base4 (family : ipFamily b = some .v4) (start : u16At b 6 &&& 0x1fff = 0)
      (plain : byteAt b 9 ≠ auth) : Named b (byteAt b 9) (b.drop (headerLen4 b))
  | auth4 (family : ipFamily b = some .v4) (start : u16At b 6 &&& 0x1fff = 0)
      (wrapped : byteAt b 9 = auth) :
      Named b (byteAt b (headerLen4 b))
        (b.drop (headerLen4 b + ((byteAt b (headerLen4 b + 1)).toNat + 2) * 4))
  | base6 (family : ipFamily b = some .v6) (plain : byteAt b 6 ≠ fragment) :
      Named b (byteAt b 6) (b.drop 40)
  | fragment6 (family : ipFamily b = some .v6) (lead : byteAt b 6 = fragment)
      (start : u16At b 42 >>> 3 = 0) : Named b (byteAt b 40) (b.drop 48)

/-- The offset of a fragment in blocks of eight bytes, from the base header or a fragment header
right after it. -/
def fragmentOffset (b : Bytes) : Option UInt16 :=
  match ipFamily b with
  | some .v4 => some (u16At b 6 &&& 0x1fff)
  | some .v6 => if byteAt b 6 = fragment then some (u16At b 42 >>> 3) else none
  | none => none

def headerSize (number : UInt8) : Nat :=
  if number = 6 then 20 else if number = 17 then 8 else if number = 132 then 12 else 0

/-- What was read of a packet is what stands in its transport header. -/
structure HeaderOf (packet : Decoded) (number : UInt8) (sub : Bytes) : Prop where
  proto : packet.proto = ofByte number
  whole : headerSize number ≤ sub.length
  tcp : number = 6 → packet.l4 = .tcp (byteAt sub 13)
  ports : number = 6 ∨ number = 17 ∨ number = 132 →
    packet.src.port = u16At sub 0 ∧ packet.dst.port = u16At sub 2
  icmp : ∀ icmpType icmpCode, packet.l4 = .icmp icmpType icmpCode →
    8 ≤ sub.length ∧ icmpType = byteAt sub 0 ∧ icmpCode = byteAt sub 1

variable {number : UInt8} {b : Bytes}

theorem four_le_headerSize (is : number = 6 ∨ number = 17 ∨ number = 132) :
    4 ≤ headerSize number := by
  rcases is with rfl | rfl | rfl <;> decide

theorem HeaderOf.widen {packet : Decoded} {body sub : Bytes} (header : HeaderOf packet number body)
    (pre : body <+: sub) : HeaderOf packet number sub where
  proto := header.proto
  whole := Nat.le_trans header.whole pre.length_le
  tcp := by
    intro is
    have whole := header.whole
    rw [is] at whole
    rw [header.tcp is, byteAt_of_front pre (Nat.lt_of_lt_of_le (by decide) whole)]
  ports := by
    intro is
    obtain ⟨src, dst⟩ := header.ports is
    have long := Nat.le_trans (four_le_headerSize is) header.whole
    rw [src, dst, u16At_of_front pre (by omega), u16At_of_front pre (by omega)]
    exact ⟨rfl, rfl⟩
  icmp := by
    intro icmpType icmpCode is
    obtain ⟨long, first, second⟩ := header.icmp icmpType icmpCode is
    refine ⟨Nat.le_trans long pre.length_le, ?_, ?_⟩
    · rw [first, byteAt_of_front pre (by omega)]
    · rw [second, byteAt_of_front pre (by omega)]

theorem ofByte_inj (other : UInt8) :
    ofByte number = ofByte other ↔ number = other := by
  rw [ofByte, ofByte, IpProto.mk.injEq, Int.ofNat_inj, UInt8.toNat_inj]

@[simp] theorem ofByte_eq_tcp : ofByte number = .tcp ↔ number = 6 :=
  ofByte_inj 6

@[simp] theorem ofByte_eq_udp : ofByte number = .udp ↔ number = 17 :=
  ofByte_inj 17

@[simp] theorem ofByte_eq_sctp : ofByte number = .sctp ↔ number = 132 :=
  ofByte_inj 132

@[simp] theorem ofByte_eq_icmp : ofByte number = .icmp ↔ number = 1 :=
  ofByte_inj 1

@[simp] theorem ofByte_eq_icmpv6 : ofByte number = .icmpv6 ↔ number = 58 :=
  ofByte_inj 58

@[simp] theorem ofByte_eq_tsmp : ofByte number = .tsmp ↔ number = 99 :=
  ofByte_inj 99

@[simp] theorem ofByte_eq_unknown : ofByte number = ipprotoUnknown ↔ number = 0 :=
  ofByte_inj 0

theorem isPortFul_ofByte :
    (ofByte number).isPortFul = true ↔ number = 6 ∨ number = 17 ∨ number = 132 := by
  simp [Filter.IpProto.isPortFul, or_assoc]

/-- The ways a packet is read: as a later fragment, as nothing that can be admitted, or by its
transport header. -/
inductive Reading (b : Bytes) (packet : Decoded) : Prop where
  | later (offset : UInt16) (stands : fragmentOffset b = some offset) (positive : 0 < offset)
      (verdict : fragmentVerdict packet.proto packet.frag = some (decide (minFragBlks ≤ offset)))
  | unclassified (proto : packet.proto = ipprotoUnknown ∨ packet.proto = .tsmp)
      (verdict : fragmentVerdict packet.proto packet.frag = some false ∨
        fragmentVerdict packet.proto packet.frag = none ∧ packet.proto = ipprotoUnknown)
  | header (number : UInt8) (sub : Bytes) (named : Named b number sub)
      (reads : HeaderOf packet number sub)
      (verdict : fragmentVerdict packet.proto packet.frag = none)

section Headers

variable {body : Bytes} {src dst : IpAddr} {frag : Option Fragment}

theorem icmpHeader_spec {icmpType icmpCode : UInt8}
    (is : icmpHeader body = .icmp icmpType icmpCode) :
    8 ≤ body.length ∧ icmpType = byteAt body 0 ∧ icmpCode = byteAt body 1 := by
  unfold icmpHeader at is
  split at is
  · rename_i long
    injection is with first second
    exact ⟨long, first.symm, second.symm⟩
  · cases is

theorem headerOf_tcp (long : 20 ≤ body.length) :
    HeaderOf ⟨ofByte 6, ⟨src, u16At body 0⟩, ⟨dst, u16At body 2⟩, tcpFlags body, frag⟩ 6
      body := by
  have flags := @tcpFlags_eq body (by omega)
  refine ⟨rfl, long, fun _ => flags, fun _ => ⟨rfl, rfl⟩, ?_⟩
  intro icmpType icmpCode is
  rw [flags] at is
  cases is

theorem headerOf_ports (other : number ≠ 6) (long : headerSize number ≤ body.length) :
    HeaderOf ⟨ofByte number, ⟨src, u16At body 0⟩, ⟨dst, u16At body 2⟩, .unknown, frag⟩
      number body :=
  ⟨rfl, long, fun is => absurd is other, fun _ => ⟨rfl, rfl⟩, nofun⟩

variable {srcPort dstPort : UInt16} {l4 : L4Header} {transport : Option TransportSlice}

theorem headerOf_portless (other : ¬(number = 6 ∨ number = 17 ∨ number = 132))
    (icmp : ∀ icmpType icmpCode, l4 = .icmp icmpType icmpCode →
      8 ≤ body.length ∧ icmpType = byteAt body 0 ∧ icmpCode = byteAt body 1) :
    HeaderOf ⟨ofByte number, ⟨src, srcPort⟩, ⟨dst, dstPort⟩, l4, frag⟩ number body := by
  refine ⟨rfl, ?_, fun is => absurd (.inl is) other, fun is => absurd is other, icmp⟩
  simp only [not_or] at other
  simp [headerSize, other]

variable (decoded : decode4FirstFragment (ofByte number) body = some (srcPort, dstPort, l4))
include decoded

theorem headerOf_first4 :
    HeaderOf ⟨ofByte number, ⟨src, srcPort⟩, ⟨dst, dstPort⟩, l4, frag⟩ number body := by
  simp only [decode4FirstFragment, ofByte_eq_tcp, ofByte_eq_udp, ofByte_eq_sctp,
    sctpPorts] at decoded
  split_ifs at decoded with tcp short udp short sctp short icmp short sentinel <;>
    obtain ⟨rfl, rfl, rfl⟩ := decoded
  · subst tcp
    exact headerOf_tcp (by omega)
  · subst udp
    exact headerOf_ports tcp (Nat.not_lt.mp short)
  · subst sctp
    exact headerOf_ports tcp (Nat.not_lt.mp short)
  · exact headerOf_portless (by simp [tcp, udp, sctp]) fun _ _ is => icmpHeader_spec is
  · exact headerOf_portless (by simp [tcp, udp, sctp]) nofun

theorem basePorts_first4 :
    basePorts (ofByte number) body transport (some (srcPort, dstPort, l4)) false =
      some (srcPort, dstPort) := by
  simp only [decode4FirstFragment, ofByte_eq_tcp, ofByte_eq_udp, ofByte_eq_sctp] at decoded
  by_cases ported : number = 6 ∨ number = 17 ∨ number = 132
  · rw [basePorts, isPortFul_ofByte.mpr ported]
    simp only [Bool.not_true, Bool.false_eq_true, ↓reduceIte, ofByte_eq_sctp]
    split
    · rename_i sctp
      subst sctp
      obtain ⟨ports, read, is⟩ := map_eq_some_iff.mp decoded
      cases is
      exact read
    · rfl
  · have plain : (ofByte number).isPortFul = false := by
      rw [← Bool.not_eq_true, isPortFul_ofByte]
      exact ported
    simp only [not_or] at ported
    rw [if_neg ported.1, if_neg ported.2.1, if_neg ported.2.2] at decoded
    rw [basePorts, plain]
    split_ifs at decoded <;> cases decoded <;> rfl

omit decoded

theorem headerOf_first6 {proto : IpProto}
    (decoded : decode6FirstFragment (ofByte number) body =
      .first proto srcPort dstPort l4) :
    HeaderOf ⟨proto, ⟨src, srcPort⟩, ⟨dst, dstPort⟩, l4, frag⟩ number body := by
  simp only [decode6FirstFragment, ofByte_eq_tcp, ofByte_eq_udp, ofByte_eq_sctp,
    ofByte_eq_icmpv6] at decoded
  split_ifs at decoded with icmp short tcp short udp short sctp short tsmp short sentinel <;>
    injection decoded with is srcIs dstIs l4Is <;> subst is srcIs dstIs l4Is
  · subst icmp
    exact headerOf_portless (by decide) fun _ _ is => icmpHeader_spec is
  · subst tcp
    exact headerOf_tcp (by omega)
  · subst udp
    exact headerOf_ports tcp (Nat.not_lt.mp short)
  · subst sctp
    exact headerOf_ports tcp (Nat.not_lt.mp short)
  · exact headerOf_portless (by simp [tcp, udp, sctp]) nofun
  · exact headerOf_portless (by simp [tcp, udp, sctp]) nofun

/-- The header of a packet that is no fragment: the slice of the protocol's own, and the ports of
SCTP read apart. -/
theorem headerOf_whole {ports : UInt16 × UInt16}
    (carried : TransportOf ⟨number, false, body⟩ transport)
    (read : basePorts (ofByte number) body transport none false = some ports) :
    HeaderOf ⟨ofByte number, ⟨src, ports.1⟩, ⟨dst, ports.2⟩,
      transportHeader (ofByte number) transport, frag⟩ number body := by
  by_cases ported : number = 6 ∨ number = 17 ∨ number = 132
  · rw [basePorts, isPortFul_ofByte.mpr ported] at read
    simp only [Bool.not_true, Bool.false_eq_true, ofByte_eq_sctp] at read
    cases carried with
    | fragment _ is => cases is
    | icmpv4 _ long => exact absurd ported (by decide)
    | icmpv6 _ long => exact absurd ported (by decide)
    | udp _ slice front long =>
      cases read
      have header := @headerOf_ports 17 slice src dst frag (by decide) long
      exact header.widen front
    | tcp _ long =>
      cases read
      exact headerOf_tcp long
    | other _ _ is =>
      simp only [mem_cons, not_mem_nil, or_false, not_or] at is
      obtain rfl : number = 132 := by simpa [is] using ported
      simp only [↓reduceIte, sctpPorts, Option.ite_none_left_eq_some, some.injEq] at read
      obtain ⟨long, rfl⟩ := read
      exact headerOf_ports (by decide) (Nat.not_lt.mp long)
  · apply headerOf_portless ported
    intro icmpType icmpCode is
    cases carried with
    | fragment _ fragmented => cases fragmented
    | icmpv4 _ long | icmpv6 _ long =>
      simp only [transportHeader] at is
      injection is with first second
      exact ⟨long, first.symm, second.symm⟩
    | udp => exact absurd ported (by decide)
    | tcp => exact absurd ported (by decide)
    | other => cases is

end Headers

theorem decodeInbound_cases [Etherparse] {packet : Decoded}
    (decoded : decodeInbound b = some packet) :
    ∃ pkt first4 ports proto src dst frag, fromIp b = some pkt ∧
      classify b pkt.net = (proto, src, dst, frag) ∧
      firstFragment4 proto pkt.net.payload.payload frag = some first4 ∧
      portsOf proto pkt.net.payload.payload pkt.transport first4 frag = some ports ∧
      packet = ⟨proto, ⟨src, ports.1⟩, ⟨dst, ports.2⟩,
        headerOf proto pkt.transport first4 frag, frag⟩ := by
  simp only [decodeInbound, bind_eq_bind, bind_eq_some_iff, Option.pure_def,
    some.injEq] at decoded
  obtain ⟨pkt, sliced, first4, first, ports, read, rfl⟩ := decoded
  exact ⟨pkt, first4, ports, _, _, _, _, sliced, rfl, first, read, rfl⟩

theorem named_ipv4 {slice : Ipv4Slice} (of : slice.Of b) (start : slice.fragmentsOffset = 0) :
    slice.payload.fragmented = slice.moreFragments ∧
      ∃ sub, Named b slice.payload.ipNumber sub ∧ slice.payload.payload <+: sub := by
  have zero : u16At b 6 &&& 0x1fff = 0 := of.offset.symm.trans start
  refine ⟨by simp [of.fragmented, start], ?_⟩
  by_cases wrapped : byteAt b 9 = auth
  · obtain ⟨number, front⟩ := of.stepped wrapped
    rw [number]
    exact ⟨_, .auth4 of.family zero wrapped, front⟩
  · obtain ⟨number, front⟩ := of.plain wrapped
    rw [number]
    exact ⟨_, .base4 of.family zero wrapped, front⟩

section Ipv4

variable {slice : Ipv4Slice} {transport : Option TransportSlice} {ports : UInt16 × UInt16}
  {first4 : Option (UInt16 × UInt16 × L4Header)}

def decoded4 (slice : Ipv4Slice) (transport : Option TransportSlice)
    (first4 : Option (UInt16 × UInt16 × L4Header)) (ports : UInt16 × UInt16) : Decoded :=
  let frag := some (.v4 ⟨slice.fragmentsOffset, slice.moreFragments⟩)
  ⟨ofByte slice.payload.ipNumber, ⟨slice.sourceAddr, ports.1⟩,
    ⟨slice.destinationAddr, ports.2⟩,
    headerOf (ofByte slice.payload.ipNumber) transport first4 frag, frag⟩

variable (carried : TransportOf slice.payload transport)
  (first : firstFragment4 (ofByte slice.payload.ipNumber) slice.payload.payload
    (some (.v4 ⟨slice.fragmentsOffset, slice.moreFragments⟩)) = some first4)
  (read : portsOf (ofByte slice.payload.ipNumber) slice.payload.payload transport
    first4 (some (.v4 ⟨slice.fragmentsOffset, slice.moreFragments⟩)) = some ports)
include carried first read

theorem header_ipv4 (fragmented : slice.payload.fragmented = slice.moreFragments)
    (start : slice.fragmentsOffset = 0) :
    HeaderOf (decoded4 slice transport first4 ports) slice.payload.ipNumber
      slice.payload.payload := by
  have read : basePorts (ofByte slice.payload.ipNumber) slice.payload.payload transport first4
      false = some ports := by
    simpa [portsOf, isLater4, start] using read
  cases more : slice.moreFragments with
  | false =>
    rw [more] at fragmented first
    have none : first4 = none := by simpa [firstFragment4] using first.symm
    subst none
    have whole : slice.payload = ⟨slice.payload.ipNumber, false, slice.payload.payload⟩ := by
      rw [← fragmented]
    rw [whole] at carried
    exact headerOf_whole carried read
  | true =>
    rw [more] at first
    simp only [firstFragment4, start, and_self, ↓reduceIte, map_eq_some_iff] at first
    obtain ⟨⟨srcPort, dstPort, l4⟩, decoded, rfl⟩ := first
    rw [basePorts_first4 decoded] at read
    cases read
    exact headerOf_first4 decoded

theorem reading_ipv4 (of : slice.Of b) :
    Reading b (decoded4 slice transport first4 ports) := by
  by_cases start : slice.fragmentsOffset = 0
  · obtain ⟨fragmented, sub, named, pre⟩ := named_ipv4 of start
    have header := header_ipv4 carried first read fragmented start
    by_cases refused : slice.payload.ipNumber = 99 ∧ slice.moreFragments = true
    · exact .unclassified (.inr (by simp [decoded4, refused]))
        (.inl (by simp [decoded4, fragmentVerdict, start, refused]))
    · refine .header slice.payload.ipNumber sub named (header.widen pre) ?_
      simp [decoded4, fragmentVerdict, start, refused]
  · have positive : 0 < slice.fragmentsOffset := UInt16.pos_iff_ne_zero.mpr start
    refine .later slice.fragmentsOffset ?_ positive ?_
    · simp [fragmentOffset, of.family, of.offset]
    · simp [decoded4, fragmentVerdict, positive]

end Ipv4

/-- A leading fragment header is not classified, or places the packet after the header of the
datagram, or names the protocol of a first fragment. -/
theorem decode6Fragment_cases (b : Bytes) :
    decode6Fragment b = .unknown ∨
    ((0 : UInt16) < u16At b 42 >>> 3 ∧ minFragBlks ≤ u16At b 42 >>> 3 ∧
      decode6Fragment b = .later) ∨
    (u16At b 42 >>> 3 = 0 ∧
      decode6Fragment b = decode6FirstFragment (ofByte (byteAt b 40)) (b.drop 48)) := by
  simp only [decode6Fragment, u16At_drop, byteAt_drop, drop_drop]
  split_ifs with short cut small first early
  · exact .inl rfl
  · exact .inl rfl
  · exact .inl rfl
  · exact .inr (.inr ⟨first, rfl⟩)
  · exact .inl rfl
  · exact .inr (.inl ⟨UInt16.pos_iff_ne_zero.mpr first, UInt16.not_lt.mp early, rfl⟩)

variable {src dst : IpAddr} {transport : Option TransportSlice}
  {first4 : Option (UInt16 × UInt16 × L4Header)} {ports : UInt16 × UInt16} {proto : IpProto}
  {slice : Ipv6Slice}

theorem reading_fragment6 {sub : Bytes} (family : ipFamily b = some .v6)
    (lead : byteAt b 6 = fragment)
    (named : ∀ inner srcPort dstPort l4,
      decode6Fragment b = .first inner srcPort dstPort l4 → proto = inner)
    (unnamed : decode6Fragment b = .unknown → proto = ipprotoUnknown)
    (read : portsOf proto sub transport first4 (some (.v6 (decode6Fragment b))) = some ports) :
    Reading b ⟨proto, ⟨src, ports.1⟩, ⟨dst, ports.2⟩,
      headerOf proto transport first4 (some (.v6 (decode6Fragment b))),
      some (.v6 (decode6Fragment b))⟩ := by
  rcases decode6Fragment_cases b with is | ⟨positive, late, is⟩ | ⟨start, is⟩
  · exact .unclassified (.inl (unnamed is)) (.inl (by rw [is]; rfl))
  · refine .later (u16At b 42 >>> 3) (by simp [fragmentOffset, family, lead]) positive ?_
    rw [is, decide_eq_true late]
    rfl
  · cases first : decode6Fragment b with
    | unknown => exact .unclassified (.inl (unnamed first)) (.inl rfl)
    | later =>
      rw [is, decode6FirstFragment] at first
      simp only at first
      split_ifs at first
    | first inner srcPort dstPort l4 =>
      obtain rfl := named _ _ _ _ first
      rw [first] at read
      cases read
      exact .header _ _ (.fragment6 family lead start) (headerOf_first6 (is.symm.trans first)) rfl

variable (read : basePorts (ofByte (byteAt b 6)) slice.payload.payload transport none false
  = some ports)
include read

theorem header_base6 (of : slice.Of b)
    (plain : byteAt b 6 ∉ [hopByHop, route, fragment, auth, destOptions])
    (carried : TransportOf slice.payload transport) :
    slice.payload.payload <+: b.drop 40 ∧
    HeaderOf ⟨ofByte (byteAt b 6), ⟨src, ports.1⟩, ⟨dst, ports.2⟩,
      transportHeader (ofByte (byteAt b 6)) transport, none⟩ (byteAt b 6)
      slice.payload.payload := by
  obtain ⟨number, whole, front⟩ := of.plain plain
  have payload : slice.payload = ⟨byteAt b 6, false, slice.payload.payload⟩ := by
    rw [← number, ← whole]
  rw [payload] at carried
  exact ⟨front, headerOf_whole carried read⟩

theorem reading_base6 (of : slice.Of b) (lead : byteAt b 6 ≠ fragment)
    (carried : TransportOf slice.payload transport) :
    Reading b ⟨ofByte (byteAt b 6), ⟨slice.sourceAddr, ports.1⟩,
      ⟨slice.destinationAddr, ports.2⟩,
      transportHeader (ofByte (byteAt b 6)) transport, none⟩ := by
  by_cases options : byteAt b 6 = hopByHop
  · have unknown : ofByte (byteAt b 6) = ipprotoUnknown := ofByte_eq_unknown.mpr options
    exact .unclassified (.inl unknown) (.inr ⟨rfl, unknown⟩)
  refine .header _ _ (.base6 of.family lead) ?_ rfl
  by_cases stepped : byteAt b 6 = route ∨ byteAt b 6 = destOptions ∨ byteAt b 6 = auth
  · -- the headers that are stepped over have no ports and no fields of their own
    apply headerOf_portless
    · rcases stepped with is | is | is <;> rw [is] <;> decide
    · intro icmpType icmpCode is
      rcases stepped with named | named | named <;> rw [named] at is <;>
        rcases transport with _ | (_ | _ | _ | _) <;> cases is
  · simp only [not_or] at stepped
    obtain ⟨front, header⟩ := header_base6 read of (by simp [options, lead, stepped]) carried
    exact header.widen front

omit read

/-- An IPv6 packet is classified by a leading fragment header, by its base header, or not at
all. -/
theorem classify6_cases {frag : Option Fragment} (of : slice.Of b)
    (classified : classify b (.ipv6 slice) = (proto, src, dst, frag)) :
    src = slice.sourceAddr ∧ dst = slice.destinationAddr ∧
    (byteAt b 6 = fragment ∧ frag = some (.v6 (decode6Fragment b)) ∧
        (match decode6Fragment b with
          | .first inner _ _ _ => inner
          | _ => ipprotoUnknown) = proto ∨
      proto = ipprotoUnknown ∧ (frag = some (.v6 .unknown) ∨ frag = none) ∨
      byteAt b 6 ≠ fragment ∧ frag = none ∧ proto = ofByte (byteAt b 6)) := by
  simp only [classify, of.next] at classified
  obtain ⟨rfl, rfl, rfl, rfl⟩ := classified
  refine ⟨rfl, rfl, ?_⟩
  by_cases lead : byteAt b 6 = fragment
  · simp only [lead]
    refine .inl ⟨trivial, rfl, ?_⟩
    cases decode6Fragment b <;> rfl
  · cases chained : fragmentHeaderIsChained slice with
    | true => simp [lead]
    | false =>
      by_cases sentinel : ofByte (byteAt b 6) = ipprotoFragmentSentinel
      · simp [lead, sentinel]
      · simp [lead, sentinel]

/-- Every packet that is decoded is read in one of the three ways, between the addresses that its
base header has. -/
theorem decode_reading [Etherparse] [Documented] {packet : Decoded}
    (decoded : decodeInbound b = some packet) :
    Reading b packet ∧ getSrcAddr b = some packet.src.ip ∧ getDstAddr b = some packet.dst.ip := by
  obtain ⟨⟨net, transport⟩, first4, ports, proto, src, dst, frag, sliced, classified, first, read,
    rfl⟩ := decodeInbound_cases decoded
  have carried := Documented.transport sliced
  cases net with
  | ipv4 slice =>
    have of := Documented.ipv4 sliced
    obtain ⟨rfl, rfl, rfl, rfl⟩ := classified
    exact ⟨reading_ipv4 carried first read of, by simp [getSrcAddr, of.family, of.source],
      by simp [getDstAddr, of.family, of.destination]⟩
  | ipv6 slice =>
    have of := Documented.ipv6 sliced
    obtain ⟨rfl, rfl, read6⟩ := classify6_cases of classified
    refine ⟨?_, by simp [getSrcAddr, of.family, of.source],
      by simp [getDstAddr, of.family, of.destination]⟩
    rcases read6 with ⟨lead, rfl, is⟩ | ⟨unknown, none⟩ | ⟨lead, rfl, rfl⟩
    · refine reading_fragment6 of.family lead ?_ ?_ read
      · intro inner srcPort dstPort l4 held
        rw [← is, held]
      · intro held
        rw [← is, held]
    · refine .unclassified (.inl unknown) (none.imp ?_ ?_)
      · rintro rfl
        rfl
      · rintro rfl
        exact ⟨rfl, unknown⟩
    · cases first
      exact reading_base6 read of lead carried

end TailscaleRs.Dataplane
