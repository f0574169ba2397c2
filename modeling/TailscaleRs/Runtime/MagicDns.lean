import TailscaleRs.Runtime.PeerDbComplete

namespace TailscaleRs.Runtime

open Net (IpAddr Family)
open TailscaleRs.Control (Node SocketAddr)

/-- A name in its canonical form: in lower case, without the root dot. -/
abbrev Canon : Type := List Char

structure ExtraRecord where
  name : Canon
  addr : IpAddr

/-- Resolvers are the UDP addresses they are asked at. -/
structure DnsConfig where
  magicDns : Bool
  searchDomains : List Canon
  extraRecords : List ExtraRecord
  resolvers : List SocketAddr
  routes : List (Canon × List SocketAddr)
  fallbackResolvers : List SocketAddr

structure DnsView where
  cfg : DnsConfig
  peers : Option PeerDb
  selfNode : Option Node
  enableIpv6 : Bool
  acceptDns : Bool

inductive Rcode where
  | noError
  | servFail
  | nxDomain
  | refused
  deriving DecidableEq

/-- A response with the addresses in its answer section, or a query to pass on. -/
inductive Decision where
  | reply (rcode : Rcode) (answers : List IpAddr)
  | forward (upstreams : List SocketAddr) (recursive : Bool)
  deriving DecidableEq

inductive Upstreams where
  | route (resolvers : List SocketAddr)
  | recursive (resolvers : List SocketAddr)
  | block
  | none

/-- The name is the suffix or lies under it; an empty suffix has no names. -/
def suffixMatches (name suffix : Canon) : Bool :=
  suffix ≠ [] && (name = suffix || ('.' :: suffix).isSuffixOf name)

def addrOf (want : Family) (node : Node) : IpAddr :=
  match want with
  | .v4 => node.tailnetAddress.ipv4.addr
  | .v6 => node.tailnetAddress.ipv6.addr

/-- The longest suffix is the best one. -/
def betterRoute (name : Canon) (best : Option (Canon × List SocketAddr))
    (route : Canon × List SocketAddr) : Option (Canon × List SocketAddr) :=
  if suffixMatches name route.1 && best.all fun held => held.1.length < route.1.length then
    some route
  else best

/-- IPv6 sockets are not opened. -/
def forwardTo (resolvers : List SocketAddr) (recursive : Bool) : Decision :=
  let upstreams := resolvers.filter (·.ip.isIpv4)
  if upstreams.isEmpty then .reply .servFail [] else .forward upstreams recursive

namespace DnsView

variable (view : DnsView)

def nodeByName (name : Canon) : Option Node :=
  match view.peers.bind fun peers => peers.get (.name (String.ofList name)) with
  | some (_, node) => some node
  | none => view.selfNode.filter fun node => node.matchesName (String.ofList name)

/-- The node that answers to the name as written, or else with a search domain after it. -/
def exactNode (canon : Canon) : Option Node :=
  (canon :: view.cfg.searchDomains.map fun suffix => canon ++ '.' :: suffix).findSome?
    view.nodeByName

/-- The walk through the parents of a name, which are what follows its dots; it ends at a bare
label and at a search domain. -/
def subdomainHostFor : Canon → Option Node
  | [] => none
  | c :: parent =>
    if c ≠ '.' then subdomainHostFor parent
    else if '.' ∉ parent ∨ parent ∈ view.cfg.searchDomains then none
    else
      match (view.nodeByName parent).filter (·.hasNodeAttr "dns-subdomain-resolve") with
      | some node => some node
      | none => subdomainHostFor parent

def resolveAddr (canon : Canon) (want : Family) : Option IpAddr :=
  match view.exactNode canon with
  | some node => some (addrOf want node)
  | none =>
    match view.cfg.extraRecords.find? fun rec => rec.name = canon ∧ rec.addr.family = want with
    | some rec => some rec.addr
    | none =>
      -- A record of the other family: the name exists, so the parents are not asked.
      if view.cfg.extraRecords.any (·.name = canon) then none
      else (view.subdomainHostFor canon).map (addrOf want)

def routeFor (name : Canon) : Upstreams :=
  match view.cfg.routes.foldl (betterRoute name) none with
  | some (_, upstreams) => if upstreams.isEmpty then .block else .route upstreams
  | none =>
    if !view.cfg.fallbackResolvers.isEmpty then .recursive view.cfg.fallbackResolvers
    else if !view.cfg.resolvers.isEmpty then .recursive view.cfg.resolvers
    else .none

def isTailnetName (name : Canon) : Bool := view.cfg.searchDomains.any (suffixMatches name)

def forwardOrNxdomain (canon : Canon) : Decision :=
  if view.isTailnetName canon then .reply .nxDomain []
  else
    match view.routeFor canon with
    | .route resolvers => forwardTo resolvers false
    | .recursive resolvers => forwardTo resolvers true
    | .block => .reply .nxDomain []
    | .none => .reply .servFail []

/-- A query of class IN for the addresses of one family: the arms of `A` and of `AAAA`. -/
def decide (canon : Canon) (want : Family) : Decision :=
  if !view.cfg.magicDns || !view.acceptDns then .reply .refused []
  else
    match want, (view.resolveAddr canon want).filter (·.family = want) with
    | .v4, some addr => .reply .noError [addr]
    | .v6, some addr => .reply .noError (if view.enableIpv6 then [addr] else [])
    | _, none => view.forwardOrNxdomain canon

/-- A static record of the name and the family. -/
def HasRecord (canon : Canon) (family : Family) : Prop :=
  ∃ rec ∈ view.cfg.extraRecords, rec.name = canon ∧ rec.addr.family = family

end DnsView

/-- A record, or that there is none of the family: the name exists. -/
def Decision.NoError (decision : Decision) : Prop := ∃ answers, decision = .reply .noError answers

theorem addrOf_family (want : Family) (node : Node) : (addrOf want node).family = want := by
  cases want
  · exact node.tailnetAddress.isV4
  · exact node.tailnetAddress.isV6

theorem forwardTo_not_noError (resolvers : List SocketAddr) (recursive : Bool) :
    ¬(forwardTo resolvers recursive).NoError := by
  rintro ⟨answers, same⟩
  rw [forwardTo] at same
  split at same <;> cases same

namespace DnsView

variable (view : DnsView) (canon : Canon) (want : Family)

theorem forwardOrNxdomain_not_noError : ¬(view.forwardOrNxdomain canon).NoError := by
  unfold forwardOrNxdomain
  split
  · rintro ⟨_, ⟨⟩⟩
  · split
    · exact forwardTo_not_noError _ _
    · exact forwardTo_not_noError _ _
    · rintro ⟨_, ⟨⟩⟩
    · rintro ⟨_, ⟨⟩⟩

variable {view canon want}

theorem resolveAddr_family {addr : IpAddr} (found : view.resolveAddr canon want = some addr) :
    addr.family = want := by
  unfold resolveAddr at found
  split at found
  · cases found
    exact addrOf_family _ _
  · split at found
    · next rec matched =>
      cases found
      have := List.find?_some matched
      simp_all
    · split at found
      · cases found
      · obtain ⟨node, -, rfl⟩ := Option.map_eq_some_iff.mp found
        exact addrOf_family _ _

variable (view canon want)

/-- The address queries are answered from what the name resolves to. -/
theorem decide_noError_iff :
    (view.decide canon want).NoError ↔
      (view.cfg.magicDns ∧ view.acceptDns) ∧ (view.resolveAddr canon want).isSome := by
  unfold decide
  split
  · next off =>
    have : ¬(view.cfg.magicDns ∧ view.acceptDns) := by grind
    simp [this, Decision.NoError]
  · next on =>
    have : view.cfg.magicDns ∧ view.acceptDns := by grind
    cases found : view.resolveAddr canon want with
    | none =>
      cases want <;> simpa [found] using view.forwardOrNxdomain_not_noError canon
    | some addr =>
      have := resolveAddr_family found
      cases want <;> simp_all [Option.filter, Decision.NoError]

/-- Whether a name resolves depends on the family through the static records alone. -/
theorem resolveAddr_isSome_iff :
    (view.resolveAddr canon want).isSome ↔
      (view.exactNode canon).isSome ∨ view.HasRecord canon want ∨
        view.cfg.extraRecords.any (·.name = canon) = false ∧
          (view.subdomainHostFor canon).isSome := by
  have matched : (view.cfg.extraRecords.find? fun rec =>
      rec.name = canon ∧ rec.addr.family = want).isSome ↔ view.HasRecord canon want := by
    simp [HasRecord]
  rw [← matched]
  unfold resolveAddr
  cases view.exactNode canon with
  | some node => simp
  | none =>
    cases view.cfg.extraRecords.find? fun rec => rec.name = canon ∧ rec.addr.family = want with
    | some rec => simp
    | none => cases view.cfg.extraRecords.any (·.name = canon) <;> simp

theorem named_iff : view.cfg.extraRecords.any (·.name = canon) ↔
    view.HasRecord canon .v4 ∨ view.HasRecord canon .v6 := by
  rw [List.any_eq_true]
  constructor
  · rintro ⟨rec, mem, same⟩
    cases family : rec.addr.family with
    | v4 => exact .inl ⟨rec, mem, of_decide_eq_true same, family⟩
    | v6 => exact .inr ⟨rec, mem, of_decide_eq_true same, family⟩
  · rintro (⟨rec, mem, same, -⟩ | ⟨rec, mem, same, -⟩) <;>
      exact ⟨rec, mem, decide_eq_true same⟩

/-- The families disagree about a name exactly if static records of one family are all that is
known of it. -/
theorem decide_families_agree_iff :
    ((view.decide canon .v4).NoError ↔ (view.decide canon .v6).NoError) ↔
      ¬(view.cfg.magicDns ∧ view.acceptDns) ∨ (view.exactNode canon).isSome ∨
        (view.HasRecord canon .v4 ↔ view.HasRecord canon .v6) := by
  have named := view.named_iff canon
  rw [← Bool.not_eq_false] at named
  simp only [decide_noError_iff, resolveAddr_isSome_iff]
  tauto

/-- One static record of one family, in a tailnet of no nodes. -/
def toyView : DnsView :=
  ⟨⟨true, ["ts.net".toList], [⟨"db.ts.net".toList, ⟨.v4, [10, 0, 0, 1], rfl⟩⟩], [], [], []⟩, none,
    none, true, true⟩

/-- The name has an address, and does not exist. -/
theorem record_of_one_family :
    toyView.decide "db.ts.net".toList .v4 = .reply .noError [⟨.v4, [10, 0, 0, 1], rfl⟩] ∧
      toyView.decide "db.ts.net".toList .v6 = .reply .nxDomain [] := by
  decide

end DnsView

end TailscaleRs.Runtime
