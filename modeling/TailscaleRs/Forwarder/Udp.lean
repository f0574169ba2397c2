import TailscaleRs.Control.Node
import TailscaleRs.Lib.KeyedMap
import TailscaleRs.Lib.Run

namespace TailscaleRs.Forwarder

open Net (IpAddr IpNet)
open Control (SocketAddr)

inductive FlowClass
  | subnet
  | exitNode
  deriving DecidableEq

/-- By the advertised prefixes, longest first. -/
def classify (routes : List IpNet) (dst : IpAddr) : Option FlowClass :=
  (routes.find? (·.contains dst)).map fun net =>
    if net.prefixLen = 0 then .exitNode else .subnet

/-- A `RealDialer` in the state the host is in. A dial that succeeds gives the address to spoof on
the replies, which is the one the peer expects to talk to. -/
structure RealDialer where
  dialUdp : FlowClass → SocketAddr → Option IpAddr
  spoofs : ∀ {cls dst src}, dialUdp cls dst = some src → src = dst.ip

def maxUdpFlows : Nat := 512

/-- In milliseconds. -/
def udpIdle (port : UInt16) : Nat := if port = 53 then 30000 else 120000

/-- `pumping` until the reply pump returns, which spoofs `spoofSrc`. -/
structure FlowState where
  last : Nat
  pumping : Bool
  spoofSrc : IpAddr

abbrev FlowKey : Type := SocketAddr × SocketAddr

/-- The permits of the semaphore shared by all ports: those left, and those held by this port. -/
structure Permits where
  free : Nat
  held : Nat

structure UdpPort where
  port : UInt16
  flows : KeyedMap FlowKey FlowState
  globalFlows : Option Permits
  live : Option Nat

inductive Event
  | datagram (key : FlowKey) (routes : List IpNet) (dialer : RealDialer) (now : Nat) (sent : Bool)
  | reply (key : FlowKey) (payload : Bytes) (now : Nat)
  | recvFailed (key : FlowKey)
  | reap (now : Nat)
  | elsewhere (free : Nat)
  | closed

namespace UdpPort

def new (port : UInt16) (globalFlows : Option Nat) (counted : Bool) : UdpPort where
  port := port
  flows := ∅
  globalFlows := globalFlows.map fun free => ⟨free, 0⟩
  live := if counted then some 0 else none

variable (p : UdpPort)

def size : Nat := p.flows.entries.length

/-- The other flows are dropped, each with its permit and its part of the count. -/
def keepOnly (keep : FlowKey → FlowState → Bool) : UdpPort :=
  let kept := p.flows.retain keep
  let dropped := p.size - kept.entries.length
  { p with
    flows := kept
    globalFlows := p.globalFlows.map fun s => ⟨s.free + dropped, s.held - dropped⟩
    live := p.live.map (· - dropped) }

def amend (key : FlowKey) (f : FlowState → FlowState) : UdpPort :=
  { p with flows := p.flows.mapWithKey fun k flow => if k = key then f flow else flow }

/-- A permit that was acquired for nothing is released again. -/
def openFlow (key : FlowKey) (routes : List IpNet) (dialer : RealDialer) (now : Nat) :
    Option UdpPort :=
  if maxUdpFlows ≤ p.size then none
  else if p.globalFlows.any (·.free = 0) then none
  else do
    let cls ← classify routes key.2.ip
    let spoofSrc ← dialer.dialUdp cls key.2
    some { p with
      flows := p.flows.insert key ⟨now, true, spoofSrc⟩
      globalFlows := p.globalFlows.map fun s => ⟨s.free - 1, s.held + 1⟩
      live := p.live.map (· + 1) }

def step : Event → UdpPort
  | .datagram key routes dialer now sent =>
    let flowing :=
      if (p.flows.lookup key).isSome then some (p.amend key ({ · with last := now }))
      else p.openFlow key routes dialer now
    match flowing with
    | none => p
    | some after => if sent then after else after.keepOnly fun k _ => k ≠ key
  | .reply key _ now =>
    p.amend key fun flow => if flow.pumping then { flow with last := now } else flow
  | .recvFailed key => p.amend key ({ · with pumping := false })
  | .reap now => p.keepOnly fun _ flow => now - flow.last < udpIdle p.port
  | .elsewhere free => { p with globalFlows := p.globalFlows.map ({ · with free := free }) }
  | .closed => p.keepOnly fun _ _ => false

/-- What the overlay socket is asked to send: to whom, from where. -/
def relayed (key : FlowKey) (payload : Bytes) : List (SocketAddr × IpAddr × Bytes) :=
  match p.flows.lookup key with
  | some flow => if flow.pumping then [(key.1, flow.spoofSrc, payload)] else []
  | none => []

/-- Every flow has its pump, and the counters agree with the table. -/
structure TwoWay : Prop where
  pumped : ∀ key flow, p.flows.lookup key = some flow →
    flow.pumping = true ∧ flow.spoofSrc = key.2.ip
  bounded : p.size ≤ 512
  live : ∀ live ∈ p.live, live = p.size
  permits : ∀ permits ∈ p.globalFlows, permits.held = p.size

/-- No error on the socket of a flow ends its pump. -/
def Receives : Event → Prop
  | .recvFailed key => p.flows.lookup key = none
  | _ => True

variable {p}

theorem TwoWay.amend (twoWay : p.TwoWay) {key : FlowKey} {f : FlowState → FlowState}
    (kept : ∀ flow, p.flows.lookup key = some flow →
      (f flow).pumping = flow.pumping ∧ (f flow).spoofSrc = flow.spoofSrc) :
    (p.amend key f).TwoWay := by
  have size : (p.amend key f).size = p.size := List.length_map _
  refine ⟨?_, size ▸ twoWay.bounded, size ▸ twoWay.live, size ▸ twoWay.permits⟩
  intro other flow found
  rw [UdpPort.amend, KeyedMap.lookup_mapWithKey] at found
  obtain ⟨old, held, rfl⟩ := Option.map_eq_some_iff.mp found
  have pumped := twoWay.pumped other old held
  split
  case isTrue is =>
    subst is
    rwa [(kept old held).1, (kept old held).2]
  case isFalse => exact pumped

theorem TwoWay.keepOnly (twoWay : p.TwoWay) (keep : FlowKey → FlowState → Bool) :
    (p.keepOnly keep).TwoWay := by
  have fewer : (p.keepOnly keep).size ≤ p.size := List.length_filter_le _ _
  refine ⟨?_, fewer.trans twoWay.bounded, Option.forall_mem_map.mpr ?_,
    Option.forall_mem_map.mpr ?_⟩
  · intro key flow found
    rw [UdpPort.keepOnly, KeyedMap.lookup_retain] at found
    exact twoWay.pumped key flow (Option.filter_eq_some_iff.mp found).1
  · intro old held
    rw [twoWay.live old held]
    exact Nat.sub_sub_self fewer
  · intro old held
    simp only [twoWay.permits old held]
    exact Nat.sub_sub_self fewer

theorem TwoWay.openFlow (twoWay : p.TwoWay) {key : FlowKey} {routes : List IpNet}
    {dialer : RealDialer} {now : Nat} (fresh : p.flows.lookup key = none) {after : UdpPort}
    (opened : p.openFlow key routes dialer now = some after) : after.TwoWay := by
  rw [UdpPort.openFlow] at opened
  split_ifs at opened with full taken
  obtain ⟨cls, -, opened⟩ := Option.bind_eq_some_iff.mp opened
  obtain ⟨src, dialed, opened⟩ := Option.bind_eq_some_iff.mp opened
  cases opened
  have grown : (p.flows.insert key ⟨now, true, src⟩).entries.length = p.size + 1 := by
    rw [AList.entries_insert_of_notMem (AList.lookup_eq_none.mp fresh)]
    rfl
  refine ⟨?_, grown.trans_le (Nat.not_le.mp full), Option.forall_mem_map.mpr ?_,
    Option.forall_mem_map.mpr ?_⟩
  · intro other flow found
    by_cases is : other = key
    · subst is
      cases (AList.lookup_insert _).symm.trans found
      exact ⟨rfl, dialer.spoofs dialed⟩
    · rw [AList.lookup_insert_ne is] at found
      exact twoWay.pumped other flow found
  · intro old held
    rw [size, grown, twoWay.live old held]
  · intro old held
    rw [size, grown, twoWay.permits old held]

theorem TwoWay.step (twoWay : p.TwoWay) {event : Event} (receives : p.Receives event) :
    (p.step event).TwoWay := by
  cases event with
  | datagram key routes dialer now sent =>
    rw [UdpPort.step]
    split
    · exact twoWay
    case h_2 after flowing =>
      have kept : after.TwoWay := by
        split at flowing
        · cases flowing
          exact twoWay.amend fun _ _ => ⟨rfl, rfl⟩
        case isFalse fresh => exact twoWay.openFlow (by simpa using fresh) flowing
      split
      · exact kept
      · exact kept.keepOnly _
  | reply key payload now =>
    refine twoWay.amend fun flow _ => ?_
    split <;> exact ⟨rfl, rfl⟩
  | recvFailed key =>
    refine twoWay.amend fun flow held => ?_
    rw [show p.flows.lookup key = none from receives] at held
    cases held
  | reap now => exact twoWay.keepOnly _
  | elsewhere free =>
    exact ⟨twoWay.pumped, twoWay.bounded, twoWay.live, Option.forall_mem_map.mpr twoWay.permits⟩
  | closed => exact twoWay.keepOnly _

theorem TwoWay.new (port : UInt16) (globalFlows : Option Nat) (counted : Bool) :
    (UdpPort.new port globalFlows counted).TwoWay := by
  refine ⟨?_, Nat.zero_le _, ?_, ?_⟩
  · intro key flow found
    cases found
  · cases counted <;> simp [UdpPort.new, size]
  · simp [UdpPort.new, size]

/-- In a run in which no receive fails on the socket of a flow, every state has for each flow a pump
that relays its replies from the address the peer targeted, and it counts the flows it has. -/
theorem flows_two_way (port : UInt16) (globalFlows : Option Nat) (counted : Bool)
    {events : List Event} (receives : Along step Receives (.new port globalFlows counted) events) :
    let reached := run step (.new port globalFlows counted) events
    reached.TwoWay ∧ ∀ key payload, (reached.flows.lookup key).isSome →
      reached.relayed key payload = [(key.1, key.2.ip, payload)] := by
  intro reached
  have twoWay : reached.TwoWay := run_invariant step Receives TwoWay
    (fun _ _ kept receives => kept.step receives) _ events (.new ..) receives
  refine ⟨twoWay, fun key payload held => ?_⟩
  obtain ⟨flow, found⟩ := Option.isSome_iff_exists.mp held
  obtain ⟨pumping, spoofs⟩ := twoWay.pumped key flow found
  simp [relayed, found, pumping, spoofs]

/-- A peer, and a host that answers it on one port and is closed on it later. -/
def toyKey : FlowKey :=
  (⟨⟨.v4, [10, 1, 0, 1], rfl⟩, 4000⟩, ⟨⟨.v4, [10, 1, 0, 2], rfl⟩, 5000⟩)

def toyDatagram (now : Nat) : Event :=
  .datagram toyKey [⟨toyKey.1.ip, 8, by decide⟩]
    ⟨fun _ dst => some dst.ip, fun is => by cases is; rfl⟩ now true

theorem flows_two_way_answered :
    (run step (.new 5000 (some 1) true) [toyDatagram 0, .reply toyKey [1] 5, .reap 9]).TwoWay :=
  (flows_two_way 5000 (some 1) true (by trivial)).1

/-- The pump ends on an error, and the flow stays while the peer keeps sending. -/
theorem refused_flow_unpumped :
    let reached := run step (.new 5000 (some 1) true)
      [toyDatagram 0, .recvFailed toyKey, toyDatagram 100000]
    (reached.flows.lookup toyKey).isSome ∧ reached.relayed toyKey [1] = [] := by
  decide

end UdpPort

end TailscaleRs.Forwarder
