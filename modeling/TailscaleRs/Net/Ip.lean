import Mathlib.Algebra.Ring.Nat
import Mathlib.Data.List.Basic

namespace TailscaleRs.Net

inductive Family where
  | v4
  | v6
  deriving DecidableEq, Repr

def Family.size : Family → Nat
  | .v4 => 4
  | .v6 => 16

/-- An IP address: `Ipv4Addr` or `Ipv6Addr` with its octets in network order. -/
structure IpAddr where
  family : Family
  octets : List UInt8
  sized : octets.length = family.size
  deriving DecidableEq

theorem IpAddr.ext {first second : IpAddr} (family : first.family = second.family)
    (octets : first.octets = second.octets) : first = second := by
  cases second
  cases family
  cases octets
  rfl

def IpAddr.isIpv4 (addr : IpAddr) : Bool := addr.family = .v4

variable (bits : Nat)

def keepBits (octet : UInt8) : UInt8 :=
  UInt8.ofNat (octet.toNat / 2 ^ (8 - bits) * 2 ^ (8 - bits))

def truncate : Nat → List UInt8 → List UInt8
  | _, [] => []
  | len, octet :: rest => keepBits len octet :: truncate (len - 8) rest

variable (len : Nat)

@[simp] theorem length_truncate (octets : List UInt8) :
    (truncate len octets).length = octets.length := by
  induction octets generalizing len with
  | nil => rfl
  | cons octet rest ih => rw [truncate, List.length_cons, List.length_cons, ih]

def IpAddr.truncate (addr : IpAddr) : IpAddr where
  family := addr.family
  octets := Net.truncate len addr.octets
  sized := by rw [length_truncate, addr.sized]

variable {len}

theorem IpAddr.truncate_eq_iff (len len' : Nat) (first second : IpAddr) :
    first.truncate len = second.truncate len' ↔
      first.family = second.family ∧
        Net.truncate len first.octets = Net.truncate len' second.octets := by
  rw [IpAddr.truncate, IpAddr.truncate, IpAddr.mk.injEq]

/-- `ipnet::IpNet`: an address and how many of its bits name the network. -/
structure IpNet where
  addr : IpAddr
  prefixLen : Nat
  bounded : prefixLen ≤ 8 * addr.family.size
  deriving DecidableEq

namespace IpNet

theorem ext {first second : IpNet} (addr : first.addr = second.addr)
    (prefixLen : first.prefixLen = second.prefixLen) : first = second := by
  cases second
  cases addr
  cases prefixLen
  rfl

variable (net : IpNet)

def trunc : IpNet where
  addr := net.addr.truncate net.prefixLen
  prefixLen := net.prefixLen
  bounded := net.bounded

/-- `IpNet::contains`: the address is of the same family and lies in the network. -/
def contains (addr : IpAddr) : Bool :=
  addr.truncate net.prefixLen = net.addr.truncate net.prefixLen

/-- `IpNet::contains` of another network: it is as long and its address lies in this one. -/
def containsNet (net other : IpNet) : Bool :=
  net.prefixLen ≤ other.prefixLen && net.contains other.addr

/-- The host bits are clear. -/
def Truncated : Prop := net.trunc = net

instance truncatedDecidable (net : IpNet) : Decidable net.Truncated :=
  inferInstanceAs (Decidable (net.trunc = net))

end IpNet

theorem toNat_keepBits (octet : UInt8) :
    (keepBits bits octet).toNat = octet.toNat / 2 ^ (8 - bits) * 2 ^ (8 - bits) := by
  rw [keepBits, UInt8.toNat_ofNat', Nat.mod_eq_of_lt]
  exact Nat.lt_of_le_of_lt (Nat.div_mul_le_self _ _) octet.toNat_lt

theorem keepBits_eq_iff (first second : UInt8) :
    keepBits bits first = keepBits bits second ↔
      first.toNat / 2 ^ (8 - bits) = second.toNat / 2 ^ (8 - bits) := by
  rw [← UInt8.toNat_inj, toNat_keepBits, toNat_keepBits]
  exact Nat.mul_left_inj (Nat.ne_of_gt (Nat.two_pow_pos (8 - bits)))

theorem keepBits_keepBits (first second : Nat) (fewer : first ≤ second) (octet : UInt8) :
    keepBits first (keepBits second octet) = keepBits first octet := by
  have split : 2 ^ (8 - first) = 2 ^ (8 - second) * 2 ^ (8 - first - (8 - second)) := by
    rw [← Nat.pow_add]
    congr 1
    omega
  rw [keepBits_eq_iff, toNat_keepBits, split, ← Nat.div_div_eq_div_mul,
    ← Nat.div_div_eq_div_mul, Nat.mul_div_cancel _ (Nat.two_pow_pos _)]

theorem truncate_truncate (first second : Nat) (fewer : first ≤ second) (octets : List UInt8) :
    truncate first (truncate second octets) = truncate first octets := by
  induction octets generalizing first second with
  | nil => rfl
  | cons octet rest ih =>
    rw [truncate, truncate, truncate, keepBits_keepBits first second fewer, ih _ _ (by omega)]

theorem truncate_idem {octets : List UInt8} :
    truncate len (truncate len octets) = truncate len octets :=
  truncate_truncate len len (Nat.le_refl len) octets

@[simp] theorem IpNet.truncated_trunc (net : IpNet) : net.trunc.Truncated :=
  IpNet.ext (IpAddr.ext rfl truncate_idem) rfl

@[simp] theorem IpNet.contains_trunc (net : IpNet) (addr : IpAddr) :
    net.trunc.contains addr = net.contains addr := by
  have same : net.trunc.addr.truncate net.prefixLen = net.addr.truncate net.prefixLen :=
    IpAddr.ext rfl truncate_idem
  have length : net.trunc.prefixLen = net.prefixLen := rfl
  rw [IpNet.contains, IpNet.contains, length, same]

theorem IpNet.nested_of_common (first second : IpNet) (addr : IpAddr)
    (inFirst : first.contains addr = true) (inSecond : second.contains addr = true)
    (shorter : first.prefixLen ≤ second.prefixLen) : first.containsNet second = true := by
  simp only [IpNet.contains, IpAddr.truncate_eq_iff, decide_eq_true_eq] at inFirst inSecond
  simp only [IpNet.containsNet, IpNet.contains, IpAddr.truncate_eq_iff, Bool.and_eq_true,
    decide_eq_true_eq]
  refine ⟨shorter, inSecond.1.symm.trans inFirst.1, ?_⟩
  rw [← truncate_truncate _ _ shorter second.addr.octets, ← inSecond.2,
    truncate_truncate _ _ shorter, inFirst.2]

end TailscaleRs.Net

namespace TailscaleRs.Net.IpAddr

variable (addr : IpAddr)

/-- The octet in this place; every address of its family has one there. -/
def octet (n : Nat) : UInt8 := addr.octets.getD n 0

def isUnspecified : Bool := addr.octets.all (· = 0)

def isLoopback : Bool :=
  match addr.family with
  | .v4 => addr.octet 0 = 127
  | .v6 => addr.octets = List.replicate 15 0 ++ [1]

def isLinkLocal : Bool :=
  match addr.family with
  | .v4 => addr.octet 0 = 169 && addr.octet 1 = 254
  | .v6 => addr.octet 0 = 254 && addr.octet 1 &&& 192 = 128

def isMulticast : Bool :=
  match addr.family with
  | .v4 => 224 ≤ addr.octet 0 && addr.octet 0 ≤ 239
  | .v6 => addr.octet 0 = 255

def isBroadcast : Bool := addr.family = .v4 && addr.octets.all (· = 255)

/-- `Ipv4Addr::is_private` (RFC 1918), `Ipv6Addr::is_unique_local` (`fc00::/7`). -/
def isPrivate : Bool :=
  match addr.family with
  | .v4 =>
    addr.octet 0 = 10 || (addr.octet 0 = 172 && 16 ≤ addr.octet 1 && addr.octet 1 ≤ 31) ||
      (addr.octet 0 = 192 && addr.octet 1 = 168)
  | .v6 => addr.octet 0 &&& 254 = 252

/-- The first octets of an IPv4-mapped address, `::ffff:0:0/96`. -/
def mappedHead : List UInt8 := List.replicate 10 0 ++ [255, 255]

theorem length_mappedTail {addr : IpAddr} (family : addr.family = .v6) :
    (addr.octets.drop 12).length = Family.v4.size := by
  rw [List.length_drop, addr.sized, family]
  rfl

/-- `IpAddr::to_canonical`: an IPv4-mapped IPv6 address as the IPv4 address it carries. -/
def toCanonical : IpAddr :=
  if mapped : addr.family = .v6 ∧ addr.octets.take 12 = mappedHead then
    ⟨.v4, addr.octets.drop 12, length_mappedTail mapped.1⟩
  else addr

def isMapped : Bool := addr.family = .v6 && addr.octets.take 12 = mappedHead

theorem toCanonical_of_not_mapped {addr : IpAddr} (plain : addr.isMapped = false) :
    addr.toCanonical = addr := by
  rw [toCanonical, dif_neg]
  rintro ⟨family, octets⟩
  simp [isMapped, family, octets] at plain

theorem isMapped_toCanonical : addr.toCanonical.isMapped = false := by
  rw [toCanonical]
  split
  · rfl
  · case _ plain => simpa [isMapped] using plain

/-- The classes that no probe of this host may be aimed at. -/
def isForbidden : Bool :=
  addr.isUnspecified || addr.isLoopback || addr.isLinkLocal || addr.isMulticast ||
    addr.isBroadcast || addr.isPrivate

end TailscaleRs.Net.IpAddr
