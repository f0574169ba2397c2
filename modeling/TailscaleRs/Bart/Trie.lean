import Mathlib.Data.FinEnum
import TailscaleRs.Lib.StrideTrie
import TailscaleRs.Net.Ip

namespace TailscaleRs.Bart

open Function
open Net (Family IpAddr IpNet)

inductive Panic where
  | unwrapNone
  | unreachable
  | assertion
  | outOfBounds
  | overflow
  deriving DecidableEq, Repr

def unwrap {α : Type} : Option α → Except Panic α
  | none => .error .unwrapNone
  | some a => .ok a

/-- The position of a prefix of up to seven bits of an octet in the complete binary tree of all
of them: 1 for the empty prefix, `2 * i` and `2 * i + 1` for the two halves of `i`. -/
def BaseIndex : Type := { index : Fin 256 // index ≠ 0 }

namespace BaseIndex

instance decidableEq : DecidableEq BaseIndex :=
  inferInstanceAs (DecidableEq { index : Fin 256 // index ≠ 0 })

instance fintype : Fintype BaseIndex := inferInstanceAs (Fintype { index : Fin 256 // index ≠ 0 })

variable (index : BaseIndex)

def get : Nat := index.1.val

def tryNew (val : Nat) : Option BaseIndex :=
  if bounds : 0 < val ∧ val < 256 then
    some ⟨⟨val, bounds.2⟩, fun zero => Nat.ne_of_gt bounds.1 (congrArg Fin.val zero)⟩
  else none

variable (octet : UInt8)

theorem fromPrefix_bounds {bits : Fin 8} :
    0 < octet.toNat / 2 ^ (8 - bits.val) + 2 ^ bits.val ∧
      octet.toNat / 2 ^ (8 - bits.val) + 2 ^ bits.val < 256 := by
  have short : octet.toNat / 2 ^ (8 - bits.val) < 2 ^ bits.val := by
    rw [Nat.div_lt_iff_lt_mul (Nat.two_pow_pos _), ← Nat.pow_add,
      Nat.add_sub_cancel' (Nat.le_of_lt bits.isLt)]
    exact octet.toNat_lt
  have limit : 2 ^ bits.val ≤ 2 ^ 7 :=
    Nat.pow_le_pow_right Nat.two_pos (Nat.le_of_lt_succ bits.isLt)
  generalize octet.toNat / 2 ^ (8 - bits.val) = high at short ⊢
  omega

/-- The index of the first bits of an octet; that there are at most seven is asserted by the
source and part of the type here. -/
def fromPrefix (bits : Fin 8) : BaseIndex :=
  ⟨⟨octet.toNat / 2 ^ (8 - bits.val) + 2 ^ bits.val, (fromPrefix_bounds octet).2⟩,
    fun zero => Nat.ne_of_gt (fromPrefix_bounds octet).1 (congrArg Fin.val zero)⟩

def fromPfx7 : BaseIndex := fromPrefix octet 7

def one : BaseIndex := ⟨1, by decide⟩

/-- The number of bits of the prefix, one less than those of the index. -/
def bits : Nat := Nat.log2 index.get

/-- The octet and the length of the prefix, the inverse of `fromPrefix`. -/
def toPrefix : UInt8 × Nat :=
  (UInt8.ofNat (index.get % 2 ^ index.bits * 2 ^ (8 - index.bits)), index.bits)

/-- The length of the prefix in an address, at a depth of the trie. -/
def prefixBits (depth : Nat) : Nat := depth * 8 + index.bits

end BaseIndex

/-- The set of the indices that cover an index, itself included, highest first. -/
def lpm (index : BaseIndex) : List BaseIndex :=
  (List.range 8).filterMap fun shift => BaseIndex.tryNew (index.get / 2 ^ shift)

export StrideTrie (Child)

/-- A trie node covering one octet; its sparse arrays are functions to `Option`. -/
abbrev Node (α : Type) : Type := StrideTrie.Node UInt8 BaseIndex IpNet α

section StrideOps

variable {α : Type}

def Child.intoValue {Inner Label : Type} : Child Inner Label α → Option α
  | .leaf _ value => some value
  | .fringe value => some value
  | .path _ => none

variable (node : Node α)

def prefixCount : Nat := StrideTrie.count node.prefixes

def childCount : Nat := StrideTrie.count node.children

/-- `first_set` of an array's bitset, given what a bit of it stands for. -/
def firstSet {ι β : Type} (decode : Nat → Option ι) (array : ι → Option β) : Option ι :=
  (List.range 256).findSome? fun bit => (decode bit).filter fun i => (array i).isSome

variable (index : BaseIndex)

/-- Also returned is the entry replaced, here and below. -/
def insertPrefix (value : α) : Node α × Option α :=
  ({ node with prefixes := update node.prefixes index (some value) },
    node.prefixes index)

def removePrefix : Node α × Option α :=
  ({ node with prefixes := update node.prefixes index none }, node.prefixes index)

def insertChild (addr : UInt8) (child : Child (Node α) IpNet α) :
    Node α × Option (Child (Node α) IpNet α) :=
  ({ node with children := update node.children addr (some child) },
    node.children addr)

def removeChild (addr : UInt8) : Node α × Option (Child (Node α) IpNet α) :=
  ({ node with children := update node.children addr none }, node.children addr)

def lookupIndex : Option (BaseIndex × α) :=
  (lpm index).findSome? fun cover => (node.prefixes cover).map fun value => (cover, value)

def supersetsPrefix : Bool :=
  (lpm index).any fun cover => (node.prefixes cover).isSome

/-- What `NodePrefixIter::for_octet` yields: the prefixes that cover the octet, longest first. -/
def matchingPrefixes (octet : UInt8) : List (BaseIndex × α) :=
  (lpm (BaseIndex.fromPfx7 octet)).filterMap fun cover =>
    (node.prefixes cover).map fun value => (cover, value)

end StrideOps

open BaseIndex

def maxDepth : Nat := 16

section Util

def strideCount (net : IpNet) : Nat := net.prefixLen / 8

def overflowBits (net : IpNet) : Fin 8 := ⟨net.prefixLen % 8, Nat.mod_lt _ (by decide)⟩

/-- Whether the prefix ends with the octet at this depth; `octet_count - 1` underflows for a
prefix without a full stride. -/
def isFringe (depth : Nat) (net : IpNet) : Except Panic Bool :=
  if strideCount net = 0 then .error .overflow
  else .ok (depth = strideCount net - 1 ∧ (overflowBits net).val = 0)

def newAssert (addr : IpAddr) (len : Nat) : Except Panic IpNet :=
  if bounded : len ≤ 8 * addr.family.size then .ok ⟨addr, len, bounded⟩ else .error .assertion

def ipFromPath (path : List UInt8) (family : Family) : IpAddr where
  family := family
  octets := path.takeD family.size 0
  sized := List.takeD_length family.size path 0

variable (pathOctets : List UInt8)

/-- The prefix that a path through the trie and an index at its end stand for. -/
def prefixFromPath (depth : Nat) (family : Family) (index : BaseIndex) : Except Panic IpNet :=
  let depth := depth % maxDepth
  let (octet, indexLen) := index.toPrefix
  let path := (pathOctets.take depth).takeD maxDepth 0
  newAssert (ipFromPath (path.set depth octet) family) (depth * 8 + indexLen)

def fringePrefix (depth : Nat) (family : Family) (lastOctet : UInt8) : Except Panic IpNet :=
  let depth := depth % maxDepth
  let path := pathOctets.takeD depth 0 ++ [lastOctet]
  newAssert (ipFromPath path family) ((depth + 1) * 8)

end Util

variable {α : Type}

def insertRounds : Nat → IpNet → α → Nat → Node α → Except Panic (Node α × Option α)
  | 0, _, _, _, node => .ok (node, none)
  | rounds + 1, net, val, depth, node =>
    match net.addr.octets[depth]? with
    | none => .ok (node, none)
    | some octet =>
      -- the end of a round: by now the child is a path node
      let descend (next : Node α) : Except Panic (Node α × Option α) := do
        let (next, old) ← insertRounds rounds net val (depth + 1) next
        return ((insertChild node octet (.path next)).1, old)
      if depth = strideCount net then
        .ok (insertPrefix node (fromPrefix octet (overflowBits net)) val)
      else match node.children octet with
        | none => do
            let child := if ← isFringe depth net then .fringe val else .leaf net val
            let (node, removed) := insertChild node octet child
            return (node, removed.bind Child.intoValue)
        | some (.leaf leafPrefix leafValue) =>
          if net = leafPrefix then
            .ok ((insertChild node octet (.leaf leafPrefix val)).1, some leafValue)
          else do
            let (fresh, _) ←
              insertRounds rounds leafPrefix leafValue (depth + 1) StrideTrie.Node.empty
            descend fresh
        | some (.fringe old) => do
            if ← isFringe depth net then
              return ((insertChild node octet (.fringe val)).1, some old)
            else
              descend (insertPrefix StrideTrie.Node.empty one old).1
        | some (.path next) => descend next

section

variable (node : Node α) (net : IpNet)

def insertInner (val : α) (depth : Nat) : Except Panic (Node α × Option α) :=
  insertRounds (maxDepth - depth) net val depth node

def insert (val : α) : Except Panic (Node α × Option α) :=
  insertInner node net.trunc val 0

/-- The one entry left below the compression root, to be put back there. -/
structure RemovalInfo (α : Type) where
  value : α
  compressionRootDepth : Nat
  nodePrefix : IpNet

/-- Take the last entry out of a node that can be compressed away. -/
def tryRemoveLastChild (octets : List UInt8) (depth : Nat) (family : Family)
    (compressionRootDepth : Nat) : Except Panic (Node α × Option (RemovalInfo α)) :=
  if depth = compressionRootDepth then .ok (node, none)
  else match childCount node, prefixCount node with
    | 0, 1 => do
        let index ← unwrap (firstSet tryNew node.prefixes)
        let (node, removed) := removePrefix node index
        let value ← unwrap removed
        let nodePrefix ← prefixFromPath octets depth family index
        return (node, some ⟨value, compressionRootDepth, nodePrefix⟩)
    | 1, 0 => do
        let addr ← unwrap (firstSet (fun bit => some (UInt8.ofNat bit)) node.children)
        match ← unwrap (node.children addr) with
        | .path _ => return (node, none)
        | .fringe value =>
          let nodePrefix ← fringePrefix octets depth family addr
          return ((removeChild node addr).1, some ⟨value, compressionRootDepth, nodePrefix⟩)
        | .leaf nodePrefix value =>
          return ((removeChild node addr).1, some ⟨value, compressionRootDepth, nodePrefix⟩)
    | _, _ => .ok (node, none)

/-- Whether a node goes when the one child on the way does. -/
def isDeletable : Bool := childCount node = 1 ∧ prefixCount node = 0

/-- `remove_inner` from a depth on; `octets` are those of the whole prefix. -/
def removeInner (octets : List UInt8) (net : IpNet) :
    List UInt8 → Nat → Nat → Node α → Except Panic (Node α × Option α × Option (RemovalInfo α))
  | [], _, _, node => .ok (node, none, none)
  | octet :: rest, depth, compressionRootDepth, node =>
    let finish (node : Node α) (ret : Option α) :
        Except Panic (Node α × Option α × Option (RemovalInfo α)) := do
      let (node, removal) ←
        tryRemoveLastChild node octets depth net.addr.family compressionRootDepth
      return (node, ret, removal)
    if depth = strideCount net then
      let (node, ret) := removePrefix node (fromPrefix octet (overflowBits net))
      finish node ret
    else match node.children octet with
      | none => .ok (node, none, none)
      | some (.leaf leafPrefix value) =>
        if leafPrefix ≠ net then .ok (node, none, none)
        else finish (removeChild node octet).1 (some value)
      | some (.fringe value) => do
          if !(← isFringe depth net) then return (node, none, none)
          else finish (removeChild node octet).1 (some value)
      | some (.path next) => do
          let (next, ret, removal) ← removeInner octets net rest (depth + 1)
            (if isDeletable node then compressionRootDepth else depth) next
          return ((insertChild node octet (.path next)).1, ret, removal)

/-- Walk down to the compression root and put the entry there in place of a child. -/
def compressAt (info : RemovalInfo α) : List UInt8 → Node α → Except Panic (Node α)
  | [], root =>
    match info.nodePrefix.addr.octets[info.compressionRootDepth]? with
    | none => .error .outOfBounds
    | some addr =>
      let (root, removed) := removeChild root addr
      if removed.isNone then .error .assertion
      else do
        let (root, _) ← insertInner root info.nodePrefix info.value info.compressionRootDepth
        return root
  | octet :: rest, root =>
    match root.children octet with
    | some (.path next) => do
        let next ← compressAt info rest next
        return (insertChild root octet (.path next)).1
    | _ => .error .unwrapNone

def compressRemovalPath (root : Node α) (info : RemovalInfo α) : Except Panic (Node α) :=
  if info.compressionRootDepth ≤ info.nodePrefix.addr.octets.length then
    compressAt info (info.nodePrefix.addr.octets.take info.compressionRootDepth) root
  else .error .outOfBounds

def remove : Except Panic (Node α × Option α) := do
  let net := net.trunc
  let octets := net.addr.octets
  let (node, ret, removal) ← removeInner octets net octets 0 0 node
  match removal with
  | none => return (node, ret)
  | some info => return (← compressRemovalPath node info, ret)

inductive RouteModification (α : Type) where
  | insert (value : α)
  | remove
  | noop

/-- The closure given to `modify`: it sees the value, if there is one, and may change it in
place before it decides. -/
structure Modifier (α : Type) where
  absent : RouteModification α
  present : α → α × RouteModification α

/-- What the closure decided, as the table records it. -/
inductive Op where
  | noop
  | insert
  | remove
  deriving DecidableEq

def RouteModification.op : RouteModification α → Op
  | .noop => .noop
  | .remove => .remove
  | .insert _ => .insert

/-- The outcome of `modify_inner` and what the closure decided on the way. -/
structure Modified (α : Type) where
  node : Node α
  ret : Option α
  removal : Option (RemovalInfo α)
  op : Op

/-- `modify_inner` from a depth on; `octets` are those of the whole prefix. -/
def modifyInner (octets : List UInt8) (net : IpNet) (f : Modifier α) :
    List UInt8 → Nat → Nat → Node α → Except Panic (Modified α)
  | [], _, _, node => .ok ⟨node, none, none, .noop⟩
  | octet :: rest, depth, compressionRootDepth, node =>
    let finish (node : Node α) (ret : Option α) : Except Panic (Modified α) := do
      let (node, removal) ←
        tryRemoveLastChild node octets depth net.addr.family compressionRootDepth
      return ⟨node, ret, removal, .remove⟩
    -- `f(None)` with a child in the way
    let insertBeside : Except Panic (Modified α) :=
      match f.absent with
      | .insert value => do
          let (node, ret) ← insertInner node net value depth
          return ⟨node, ret, none, .insert⟩
      | decided => .ok ⟨node, none, none, decided.op⟩
    -- `f(Some(value))` for a leaf or fringe that is the route's own
    let modifyChild (value : α) (put : α → Child (Node α) IpNet α) : Except Panic (Modified α) :=
      match f.present value with
      | (value, .noop) => .ok ⟨(insertChild node octet (put value)).1, none, none, .noop⟩
      | (value, .insert fresh) => do
          let child := if ← isFringe depth net then .fringe fresh else .leaf net fresh
          return ⟨(insertChild node octet child).1, some value, none, .insert⟩
      | (value, .remove) => finish (removeChild node octet).1 (some value)
    if depth = strideCount net then
      let index := fromPrefix octet (overflowBits net)
      match node.prefixes index with
      | none =>
        match f.absent with
        | .remove => finish (removePrefix node index).1 none
        | .insert value => .ok ⟨(insertPrefix node index value).1, none, none, .insert⟩
        | .noop => .ok ⟨node, none, none, .noop⟩
      | some value =>
        match f.present value with
        | (value, .remove) => finish (removePrefix node index).1 (some value)
        | (value, .insert fresh) =>
          .ok ⟨(insertPrefix node index fresh).1, some value, none, .insert⟩
        | (value, .noop) => .ok ⟨(insertPrefix node index value).1, none, none, .noop⟩
    else match node.children octet with
      | none =>
        match f.absent with
        | .insert value => do
            let child := if ← isFringe depth net then .fringe value else .leaf net value
            return ⟨(insertChild node octet child).1, none, none, .insert⟩
        | decided => .ok ⟨node, none, none, decided.op⟩
      | some (.leaf leafPrefix value) =>
        if leafPrefix ≠ net then insertBeside else modifyChild value (.leaf leafPrefix)
      | some (.fringe value) => do
          if !(← isFringe depth net) then insertBeside else modifyChild value .fringe
      | some (.path next) => do
          let result ← modifyInner octets net f rest (depth + 1)
            (if isDeletable node then compressionRootDepth else depth) next
          return { result with node := (insertChild node octet (.path result.node)).1 }

/-- Modify a route: the trie, the value it replaced or removed and what was decided. -/
def modify (f : Modifier α) : Except Panic (Node α × Option α × Op) := do
  let net := net.trunc
  let octets := net.addr.octets
  let result ← modifyInner octets net f octets 0 0 node
  match result.removal with
  | none => return (result.node, result.ret, result.op)
  | some info => return (← compressRemovalPath result.node info, result.ret, result.op)

def contains (ip : IpAddr) : List UInt8 → Node α → Bool
  | [], _ => false
  | octet :: rest, node =>
    if prefixCount node ≠ 0 ∧ supersetsPrefix node (fromPfx7 octet) then true
    else match node.children octet with
      | none => false
      | some (.path next) => contains ip rest next
      | some (.fringe _) => true
      | some (.leaf leafPrefix _) => leafPrefix.contains ip

/-- The value of exactly this prefix, from a depth on. -/
def lookupPrefixExact (net : IpNet) : List UInt8 → Nat → Node α → Except Panic (Option α)
  | [], _, _ => .error .unreachable
  | octet :: rest, depth, node =>
    if depth = strideCount net then
      .ok (node.prefixes (fromPrefix octet (overflowBits net)))
    else match node.children octet with
      | none => .ok none
      | some (.path next) => lookupPrefixExact net rest (depth + 1) next
      | some (.leaf leafPrefix value) => .ok (if net = leafPrefix then some value else none)
      | some (.fringe value) => do return if ← isFringe depth net then some value else none

/-- A push on a `heapless::Vec` of the maximum depth. -/
def push {β : Type} (item : β) (stack : List β) : Except Panic (List β) :=
  if stack.length < maxDepth then .ok (item :: stack) else .error .unwrapNone

/-- The walk down of the address lookups: the nodes passed with the octet read at each, last
first, and the value of the leaf or fringe at the end, if it covers the address. -/
def descendAddress (addr : IpAddr) :
    List UInt8 → List (Node α × UInt8) → Node α → Except Panic (List (Node α × UInt8) × Option α)
  | [], stack, _ => .ok (stack, none)
  | octet :: rest, stack, node => do
      let stack ← push (node, octet) stack
      match node.children octet with
      | none => return (stack, none)
      | some (.path next) => descendAddress addr rest stack next
      | some (.fringe value) => return (stack, some value)
      | some (.leaf leafPrefix value) =>
        return (stack, if leafPrefix.contains addr then some value else none)

/-- What repeated calls of `walk_stack` yield. -/
def walkStack (stack : List (Node α × UInt8)) : List α :=
  stack.flatMap fun (node, octet) => (matchingPrefixes node octet).map Prod.snd

def lookupAddress (addr : IpAddr) : Except Panic (Option α) := do
  let (stack, found) ← descendAddress addr addr.octets [] node
  match found with
  | some value => return some value
  | none => return (walkStack stack).head?

/-- What the iterator over all prefixes that cover an address yields. -/
def lookupAddressAll (addr : IpAddr) : Except Panic (List α) := do
  let (stack, found) ← descendAddress addr addr.octets [] node
  return found.toList ++ walkStack stack

def descendPrefix (net : IpNet) :
    List UInt8 → Nat → List (Node α × UInt8 × Nat) → Node α →
      Except Panic (List (Node α × UInt8 × Nat) × Option (IpNet × α))
  | [], _, stack, _ => .ok (stack, none)
  | octet :: rest, depth, stack, node =>
    if depth > strideCount net then .ok (stack, none)
    else do
      let stack ← push (node, octet, depth) stack
      match node.children octet with
      | none => return (stack, none)
      | some (.path next) => descendPrefix net rest (depth + 1) stack next
      | some (.leaf leafPrefix value) =>
        if leafPrefix.prefixLen > net.prefixLen ∨ !leafPrefix.contains net.addr then
          return (stack, none)
        else return (stack, some (leafPrefix, value))
      | some (.fringe value) =>
        if (depth + 1) * 8 > net.prefixLen then return (stack, none)
        else return (stack, some (← newAssert net.addr ((depth + 1) * 8), value))

def ascendPrefix (net : IpNet) : List (Node α × UInt8 × Nat) → Except Panic (Option (IpNet × α))
  | [] => .ok none
  | (node, octet, depth) :: stack =>
    if prefixCount node = 0 then ascendPrefix net stack
    else
      let index :=
        if depth = strideCount net then fromPrefix octet (overflowBits net)
        else fromPfx7 octet
      match lookupIndex node index with
      | none => ascendPrefix net stack
      | some (top, value) => do
          return some (← newAssert net.addr (top.prefixBits depth), value)

def lookupPrefixLpm : Except Panic (Option (IpNet × α)) := do
  let net := net.trunc
  let (stack, found) ← descendPrefix net net.addr.octets 0 [] node
  match found with
  | some result => return some result
  | none => ascendPrefix net stack

end

/-- A routing table that does not tell IPv4 from IPv6 routes. -/
structure SimpleTable (α : Type) where
  root : Node α
  size : Nat

namespace SimpleTable

def empty : SimpleTable α := ⟨StrideTrie.Node.empty, 0⟩

/-- `size -= 1`, which panics at zero. -/
def decrement (size : Nat) : Except Panic Nat :=
  if size = 0 then .error .overflow else .ok (size - 1)

variable (table : SimpleTable α) (net : IpNet)

def insert (val : α) : Except Panic (SimpleTable α × Option α) := do
  let (root, ret) ← Bart.insert table.root net.trunc val
  return (⟨root, if ret.isNone then table.size + 1 else table.size⟩, ret)

def remove : Except Panic (SimpleTable α × Option α) := do
  let (root, ret) ← Bart.remove table.root net
  match ret with
  | none => return (⟨root, table.size⟩, none)
  | some value => return (⟨root, ← decrement table.size⟩, some value)

def modify (f : Modifier α) : Except Panic (SimpleTable α × Option α) := do
  let (root, ret, op) ← Bart.modify table.root net f
  match ret, op with
  | none, .insert => return (⟨root, table.size + 1⟩, ret)
  | some _, .remove => return (⟨root, ← decrement table.size⟩, ret)
  | _, _ => return (⟨root, table.size⟩, ret)

variable (ip : IpAddr)

def contains : Bool := Bart.contains ip ip.octets table.root

def lookup : Except Panic (Option α) :=
  lookupAddress table.root ip

def lookupAll : Except Panic (List α) :=
  lookupAddressAll table.root ip

def lookupPrefixExact : Except Panic (Option α) :=
  Bart.lookupPrefixExact net net.addr.octets 0 table.root

def lookupPrefixLpm : Except Panic (Option (IpNet × α)) :=
  Bart.lookupPrefixLpm table.root net

def lookupPrefix : Except Panic (Option α) := do
  return (← table.lookupPrefixLpm net).map Prod.snd

end SimpleTable

/-- A routing table with independent IPv4 and IPv6 tables. -/
structure SplitStackTable (α : Type) where
  table4 : SimpleTable α
  table6 : SimpleTable α

namespace SplitStackTable

def empty : SplitStackTable α := ⟨SimpleTable.empty, SimpleTable.empty⟩

variable (table : SplitStackTable α)

def size4 : Nat := table.table4.size

def size6 : Nat := table.table6.size

def size : Nat := table.table4.size + table.table6.size

def stackTable (ipv4 : Bool) : SimpleTable α :=
  if ipv4 then table.table4 else table.table6

/-- Run an operation on the table that `stack_table_mut` selects. -/
def onStackTable (ipv4 : Bool) (op : SimpleTable α → Except Panic (SimpleTable α × Option α)) :
    Except Panic (SplitStackTable α × Option α) := do
  let (changed, ret) ← op (table.stackTable ipv4)
  return (if ipv4 then { table with table4 := changed } else { table with table6 := changed }, ret)

variable (net : IpNet)

def insert (val : α) : Except Panic (SplitStackTable α × Option α) :=
  table.onStackTable net.addr.isIpv4 (·.insert net val)

def remove : Except Panic (SplitStackTable α × Option α) :=
  table.onStackTable net.addr.isIpv4 (·.remove net)

def modify (f : Modifier α) : Except Panic (SplitStackTable α × Option α) :=
  table.onStackTable net.addr.isIpv4 (·.modify net f)

def clear (_ : SplitStackTable α) : SplitStackTable α := empty

variable (ip : IpAddr)

def contains : Bool :=
  (table.stackTable ip.isIpv4).contains ip

def lookup : Except Panic (Option α) :=
  (table.stackTable ip.isIpv4).lookup ip

def lookupAll : Except Panic (List α) :=
  (table.stackTable ip.isIpv4).lookupAll ip

def lookupPrefixExact : Except Panic (Option α) :=
  (table.stackTable net.addr.isIpv4).lookupPrefixExact net

def lookupPrefix : Except Panic (Option α) :=
  (table.stackTable net.addr.isIpv4).lookupPrefix net

def lookupPrefixLpm : Except Panic (Option (IpNet × α)) :=
  (table.stackTable net.addr.isIpv4).lookupPrefixLpm net

end SplitStackTable

inductive Edit (α : Type) where
  | insert (net : IpNet) (val : α)
  | remove (net : IpNet)
  | modify (net : IpNet) (f : Modifier α)

inductive Call (α : Type) where
  | edit (edit : Edit α)
  | clear

def Edit.net : Edit α → IpNet
  | .insert net _ => net
  | .remove net => net
  | .modify net _ => net

def Edit.onTrie (node : Node α) : Edit α → Except Panic (Node α × Option α)
  | .insert net val => Bart.insert node net val
  | .remove net => Bart.remove node net
  | .modify net f => do
      let (node, ret, _) ← Bart.modify node net f
      return (node, ret)

def Edit.onSimple (table : SimpleTable α) : Edit α → Except Panic (SimpleTable α × Option α)
  | .insert net val => table.insert net val
  | .remove net => table.remove net
  | .modify net f => table.modify net f

def Call.onTable (table : SplitStackTable α) : Call α → Except Panic (SplitStackTable α × Option α)
  | .edit (.insert net val) => table.insert net val
  | .edit (.remove net) => table.remove net
  | .edit (.modify net f) => table.modify net f
  | .clear => .ok (table.clear, none)

def edited (node : Node α) (edits : List (Edit α)) : Except Panic (Node α) :=
  edits.foldlM (fun node edit => do return (← edit.onTrie node).1) node

/-- The table after a sequence of calls and what each of them returned. -/
def called (table : SplitStackTable α) :
    List (Call α) → Except Panic (SplitStackTable α × List (Option α))
  | [] => .ok (table, [])
  | call :: rest => do
      let (table, ret) ← call.onTable table
      let (table, rets) ← called table rest
      return (table, ret :: rets)

end TailscaleRs.Bart
