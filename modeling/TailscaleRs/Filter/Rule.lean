import Mathlib.Data.List.AList
import TailscaleRs.Bart.Trie

namespace TailscaleRs.Filter

open Function
open Bart (BaseIndex lpm Modifier)

structure PortRange where
  start : UInt16
  stop : UInt16
  deriving DecidableEq

def PortRange.contains (ports : PortRange) (port : UInt16) : Bool :=
  ports.start ≤ port && port ≤ ports.stop

def upperByte (port : Nat) : UInt8 := UInt8.ofNat (port / 256)

def lowerByte (port : Nat) : UInt8 := UInt8.ofNat (port % 256)

/-- The ports that begin with the same bits: up to seven bits, eight to fifteen, or all. -/
inductive PortPrefix where
  | topPrefix (index : BaseIndex)
  | childPrefix (hi : UInt8) (lo : BaseIndex)
  | singleton (port : Nat)
  deriving DecidableEq

namespace PortPrefix

def fromPfx (port len : Nat) : PortPrefix :=
  if short : len < 8 then .topPrefix (BaseIndex.fromPrefix (upperByte port) ⟨len, short⟩)
  else if long : len - 8 < 8 then
    .childPrefix (upperByte port) (BaseIndex.fromPrefix (lowerByte port) ⟨len - 8, long⟩)
  else .singleton port

def prefixForm : PortPrefix → Nat × Nat
  | .singleton port => (port, 16)
  | .childPrefix hi lo => (hi.toNat * 256 + lo.toPrefix.1.toNat, 8 + lo.toPrefix.2)
  | .topPrefix index => (index.toPrefix.1.toNat * 256, index.toPrefix.2)

def start (p : PortPrefix) : Nat := p.prefixForm.1

def last (p : PortPrefix) : Nat :=
  let (addr, len) := p.prefixForm
  if len = 0 then 65535 else min 65535 (addr + (0x8000 / 2 ^ (len - 1) - 1))

end PortPrefix

def trailingZeros (x : Nat) : Nat := ((List.range 16).find? x.testBit).getD 16

structure PortPrefixIter where
  start : Nat
  stop : Nat

/-- One call of the iterator's `next`; the additions saturate at `u16::MAX`. -/
def PortPrefixIter.next (iter : PortPrefixIter) : Option (PortPrefix × PortPrefixIter) :=
  if iter.start < iter.stop then
    let range := min 65535 (iter.stop - iter.start + 1)
    if range = 65535 then some (.fromPfx 0 0, ⟨1, 0⟩)
    else
      let ret := PortPrefix.fromPfx iter.start (16 - min range.log2 (trailingZeros iter.start))
      let start := min 65535 (ret.last + 1)
      some (ret, ⟨start, if start = 65535 then 0 else iter.stop⟩)
  else if iter.start = iter.stop then some (.singleton iter.start, ⟨1, 0⟩)
  else none

/-- What the iterator yields within so many calls. -/
def PortPrefixIter.collect : Nat → PortPrefixIter → List PortPrefix
  | 0, _ => []
  | rounds + 1, iter =>
    match iter.next with
    | none => []
    | some (p, iter) => p :: collect rounds iter

/-- The iterator runs out before it has made a prefix for each port. -/
def iterPrefixes (ports : PortRange) : List PortPrefix :=
  PortPrefixIter.collect 65536 ⟨ports.start.toNat, ports.stop.toNat⟩

/-- Values for sets of ports, kept by the prefixes of the set. -/
structure PortTrie (α : Type) where
  prefixes : BaseIndex → Option α
  children : UInt8 → Option (BaseIndex → Option α)
  singletons : Nat → Option α

namespace PortTrie

variable {α : Type}

def empty : PortTrie α := ⟨fun _ => none, fun _ => none, fun _ => none⟩

/-- Modify an entry in place as the closure decides; the entry before is given. -/
def decide {κ : Type} [DecidableEq κ] (entries : κ → Option α) (key : κ) (f : Modifier α) :
    κ → Option α :=
  match entries key with
  | none =>
    match f.absent with
    | .insert value => update entries key (some value)
    | .remove => update entries key none
    | .noop => entries
  | some value =>
    match f.present value with
    | (_, .insert fresh) => update entries key (some fresh)
    | (_, .remove) => update entries key none
    | (changed, .noop) => update entries key (some changed)

def modifyPrefix (f : Modifier α) (trie : PortTrie α) : PortPrefix → PortTrie α
  | .topPrefix index => { trie with prefixes := decide trie.prefixes index f }
  | .childPrefix hi lo =>
    match trie.children hi with
    | none =>
      match f.absent with
      | .insert value =>
        let child := update (fun _ => none) lo (some value)
        { trie with children := update trie.children hi (some child) }
      | _ => trie
    | some child =>
      { trie with children := update trie.children hi (some (decide child lo f)) }
  | .singleton port => { trie with singletons := decide trie.singletons port f }

def modify (trie : PortTrie α) (ports : PortRange) (f : Modifier α) : PortTrie α :=
  (iterPrefixes ports).foldl (modifyPrefix f) trie

def lookup (trie : PortTrie α) (port : UInt16) : List α :=
  let port := port.toNat
  (lpm (BaseIndex.fromPfx7 (upperByte port))).reverse.filterMap trie.prefixes ++
    (match trie.children (upperByte port) with
      | none => []
      | some child =>
        (lpm (BaseIndex.fromPfx7 (lowerByte port))).reverse.filterMap child) ++
    (trie.singletons port).toList

end PortTrie

open Net (IpAddr IpNet)

/-- An IP protocol number; filters take any integer. -/
structure IpProto where
  value : Int
  deriving DecidableEq

namespace IpProto

def icmp : IpProto := ⟨1⟩

def icmpv6 : IpProto := ⟨58⟩

def tcp : IpProto := ⟨6⟩

def udp : IpProto := ⟨17⟩

def sctp : IpProto := ⟨132⟩

def tsmp : IpProto := ⟨99⟩

/-- Whether the protocol carries ports for a rule's range to apply to. -/
def isPortFul (proto : IpProto) : Bool := proto = tcp || proto = udp || proto = sctp

end IpProto

inductive L4Header where
  | unknown
  | tcp (flags : UInt8)
  | icmp (icmpType icmpCode : UInt8)
  deriving DecidableEq

structure PacketInfo where
  src : IpAddr
  dst : IpAddr
  ipProto : IpProto
  port : UInt16
  l4 : L4Header
  deriving DecidableEq

/-- A TCP segment that was read and has not SYN without ACK. -/
def PacketInfo.isTcpNonSyn (info : PacketInfo) : Bool :=
  match info.l4 with
  | .tcp flags => info.ipProto = .tcp && flags &&& 0x12 ≠ 0x02
  | _ => false

def PacketInfo.isIcmpEchoResponse (info : PacketInfo) : Bool :=
  match info.l4 with
  | .icmp icmpType icmpCode =>
    icmpCode = 0 &&
      (info.ipProto = .icmp && icmpType = 0 || info.ipProto = .icmpv6 && icmpType = 129)
  | _ => false

/-- The third IPv4 type is the one the original has for a parameter problem. -/
def PacketInfo.isIcmpError (info : PacketInfo) : Bool :=
  match info.l4 with
  | .icmp icmpType _ =>
    info.ipProto = .icmp && (icmpType = 0x03 || icmpType = 0x0b || icmpType = 0x12) ||
      info.ipProto = .icmpv6 && (icmpType = 1 || icmpType = 2 || icmpType = 3 || icmpType = 4)
  | _ => false

def L4Header.tcpSynFlagSet : L4Header → Bool
  | .tcp flags => flags &&& 0x02 ≠ 0
  | _ => false

/-- How a rule's port range takes part in a match. -/
inductive PortMode where
  | check
  | ipsOnly
  | ipsOnlyIfAllPorts
  deriving DecidableEq

def PortMode.forProto (proto : IpProto) : PortMode :=
  if proto.isPortFul then .check
  else if proto = .icmp ∨ proto = .icmpv6 then .ipsOnly
  else .ipsOnlyIfAllPorts

def allPorts : PortRange := ⟨0, 65535⟩

/-- The sources of a rule; a prefix or a capability is enough. -/
structure SrcMatch where
  pfxs : List IpNet
  caps : List String
  deriving DecidableEq

def SrcMatch.matches (src : SrcMatch) (info : PacketInfo) (caps : List String) : Bool :=
  src.pfxs.any (fun pfx => pfx.contains info.src) ||
    caps.any fun cap => src.caps.any fun c => c = cap

/-- A destination of a rule; ports and addresses must both match. -/
structure DstMatch where
  ports : PortRange
  ips : List IpNet
  deriving DecidableEq

def DstMatch.matches (dst : DstMatch) (info : PacketInfo) (portMode : PortMode) : Bool :=
  let portOk :=
    match portMode with
    | .check => dst.ports.contains info.port
    | .ipsOnly => true
    | .ipsOnlyIfAllPorts => dst.ports = allPorts
  portOk && dst.ips.any fun pfx => pfx.contains info.dst

/-- A rule accepts a packet that its source, protocols and destinations all match. -/
structure Rule where
  src : SrcMatch
  protos : List IpProto
  dst : List DstMatch
  deriving DecidableEq

def Rule.matches (rule : Rule) (info : PacketInfo) (caps : List String) : Bool :=
  let portMode := PortMode.forProto info.ipProto
  rule.protos.contains info.ipProto && rule.src.matches info caps &&
    rule.dst.any fun dst => dst.matches info portMode

abbrev Ruleset : Type := List Rule

/-- The filter that is a map from names to rulesets, listed in the map's order. -/
abbrev MapFilter : Type := AList fun _ : String => Ruleset

variable (filter : MapFilter) (info : PacketInfo) (caps : List String)

def MapFilter.matchFor : Option String :=
  filter.entries.findSome? fun entry =>
    if entry.2.any fun rule => rule.matches info caps then some entry.1 else none

def MapFilter.matches : Bool :=
  (filter.matchFor info caps).isSome

inductive StorageOp where
  | insert (name : String) (ruleset : Ruleset)
  | remove (name : String)
  | clear

def StorageOp.onMap : StorageOp → MapFilter
  | .insert name ruleset => filter.insert name ruleset
  | .remove name => filter.erase name
  | .clear => ∅

theorem MapFilter.matches_iff :
    filter.matches info caps = true ↔
      ∃ name ruleset rule, filter.lookup name = some ruleset ∧ rule ∈ ruleset ∧
        rule.matches info caps = true := by
  rw [MapFilter.matches, MapFilter.matchFor, List.findSome?_isSome_iff]
  constructor
  · rintro ⟨⟨name, ruleset⟩, stored, found⟩
    have accepts : ruleset.any (fun rule => rule.matches info caps) = true := by
      by_contra none
      simp [none] at found
    obtain ⟨rule, member, accepts⟩ := List.any_eq_true.mp accepts
    exact ⟨name, ruleset, rule, AList.mem_lookup_iff.mpr stored, member, accepts⟩
  · rintro ⟨name, ruleset, rule, stored, member, accepts⟩
    refine ⟨⟨name, ruleset⟩, AList.mem_lookup_iff.mp stored, ?_⟩
    have any : ruleset.any (fun rule => rule.matches info caps) = true :=
      List.any_eq_true.mpr ⟨rule, member, accepts⟩
    simp [any]

end TailscaleRs.Filter
