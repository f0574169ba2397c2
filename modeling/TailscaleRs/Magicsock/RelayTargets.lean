import TailscaleRs.Magicsock.RelayMoves

namespace TailscaleRs.Magicsock

open Option List
open Net (IpAddr)
open Control (SocketAddr)
open Time (Instant)

section Filter

variable {sock : MagicSock} {addr : SocketAddr} (allowed : sock.relayAddrAllowed addr = true)
include allowed

/-- An IPv4 address, or an IPv6 address that carries none, passes only if it may be sent to. -/
theorem not_forbidden_of_allowed (plain : addr.ip.isMapped = false) :
    addr.ip.toCanonical.isForbidden = false := by
  rw [IpAddr.toCanonical_of_not_mapped plain]
  rw [MagicSock.relayAddrAllowed, MagicSock.isPingableCandidate] at allowed
  cases family : addr.ip.family with
  | v4 =>
    rw [family] at allowed
    exact Bool.not_eq_true' _ ▸ allowed
  | v6 =>
    rw [family] at allowed
    have noBroadcast : addr.ip.isBroadcast = false := by
      simp [IpAddr.isBroadcast, family]
    simp only [IpAddr.isForbidden, noBroadcast, Bool.or_false]
    dsimp only at allowed
    split at allowed
    · cases allowed
    · simp only [Bool.not_eq_true', Bool.or_eq_false_iff] at allowed ⊢
      tauto

theorem dualStack_of_mapped (mapped : addr.ip.isMapped = true) :
    sock.enableIpv6 = true ∧ sock.sendsIpv6 = true := by
  rw [IpAddr.isMapped, Bool.and_eq_true, decide_eq_true_eq] at mapped
  rw [MagicSock.relayAddrAllowed, MagicSock.isPingableCandidate, mapped.1] at allowed
  dsimp only at allowed
  split at allowed
  · cases allowed
  · rename_i gate
    simpa only [Bool.or_eq_true, Bool.not_eq_true', not_or, Bool.not_eq_false] using gate

end Filter

section Aims

variable {ok : SocketAddr → Prop} {path : RelayPath}

/-- Every address that the path has pings in flight to, or may be pinged or sent data at. -/
structure RelayPath.Aims (ok : SocketAddr → Prop) (path : RelayPath) : Prop where
  inFlight : ∀ txId inflight, path.inFlight.lookup txId = some inflight → ok inflight.target
  confirmed : ∀ held, path.confirmed = some held → ok held.addr
  answered : ∀ addr, path.answeredAddr = some addr → ok addr

namespace RelayPath.Aims

theorem new (endpoint : RelayServerEndpoint) (generation : UInt32) :
    RelayPath.Aims ok { endpoint, generation } where
  inFlight _ _ found := absurd found (some_ne_none _).symm
  confirmed _ is := absurd is (some_ne_none _).symm
  answered _ is := absurd is (some_ne_none _).symm

theorem noteAnswered (aims : path.Aims ok) {src : SocketAddr} (allowed : ok src) :
    (path.noteAnswered src).Aims ok where
  inFlight := aims.inFlight
  confirmed := aims.confirmed
  answered _ is := some.inj is ▸ allowed

variable {now : Instant} {addr : SocketAddr} (aims : path.Aims ok)
include aims

theorem outstanding {txId : TxId} {inflight : InFlight}
    (found : (path.outstanding now).lookup txId = some inflight) : ok inflight.target := by
  rw [RelayPath.outstanding, KeyedMap.lookup_retain] at found
  exact aims.inFlight txId inflight (filter_eq_some_iff.mp found).1

theorem notePingSent {target : SocketAddr} (allowed : ok target) (txId : TxId) (now : Instant) :
    (path.notePingSent txId target now).1.Aims ok := by
  rw [RelayPath.notePingSent]
  split
  · exact ⟨fun _ _ => aims.outstanding, aims.confirmed, aims.answered⟩
  · refine ⟨fun id inflight found => ?_, aims.confirmed, aims.answered⟩
    by_cases is : id = txId
    · subst is
      rw [AList.lookup_insert] at found
      cases found
      exact allowed
    · rw [AList.lookup_insert_ne is] at found
      exact aims.outstanding found

theorem notePong (txId : TxId) (now : Instant) : (path.notePong txId now).1.Aims ok := by
  rw [RelayPath.notePong]
  split
  · exact aims
  · rename_i inflight matched
    refine ⟨fun id other found => ?_, fun held is => ?_, aims.answered⟩
    · by_cases same : id = txId
      · subst same
        rw [AList.lookup_erase] at found
        cases found
      · rw [AList.lookup_erase_ne same] at found
        exact aims.inFlight id other found
    · dsimp only at is
      split at is
      · exact aims.confirmed held is
      · cases is
        exact aims.inFlight txId inflight matched

theorem pingTarget (is : path.pingTarget = some addr) : ok addr := by
  rw [RelayPath.pingTarget, or_eq_some_iff] at is
  rcases is with confirmed | ⟨-, answered⟩
  · obtain ⟨held, is, rfl⟩ := map_eq_some_iff.mp confirmed
    exact aims.confirmed held is
  · exact aims.answered addr answered

theorem usable {vni : UInt32} (is : path.usable now = some (addr, vni)) : ok addr := by
  obtain ⟨held, confirmed, is⟩ := bind_eq_some_iff.mp is
  split at is
  · cases is
    exact aims.confirmed held confirmed
  · cases is

end RelayPath.Aims

end Aims

namespace MagicSock

/-- The source that a call offers as a target on a relay leg. -/
def Event.offered : Event → List SocketAddr
  | .receive src (.geneveDisco _ true (some (.bindUdpRelayEndpointChallenge _ _))) => [src]
  | .receive src (.geneveDisco _ false (some (.ping _ _ _))) => [src]
  | _ => []

/-- What the filter lets through: of sources, and of announced addresses, which are unwrapped. -/
structure Admits (ok : SocketAddr → Prop) (sock : MagicSock) (call : Call) : Prop where
  source : ∀ addr ∈ call.2.offered, sock.relayAddrAllowed addr = true → ok addr
  plain : ∀ addr, addr.ip.isMapped = false → sock.relayAddrAllowed addr = true → ok addr

/-- Every relay path, and every relayed ping still to be sent, is aimed at such an address. -/
structure RelaysAim (ok : SocketAddr → Prop) (sock : MagicSock) : Prop where
  paths : ∀ peer path, sock.relayPaths.get peer = some path → path.Aims ok
  pending : ∀ ping ∈ sock.pendingRelayPings, ok ping.2.1

namespace RelaysAim

variable {ok : SocketAddr → Prop} {sock : MagicSock} {call : Call} (aim : sock.RelaysAim ok)
include aim

theorem alter {peer : DiscoPublicKey} {f : RelayPath → RelayPath}
    (aims : ∀ path, sock.relayPaths.get peer = some path → (f path).Aims ok)
    (other : DiscoPublicKey) (path : RelayPath)
    (held : (sock.relayPaths.alter peer f).get other = some path) :
    path.Aims ok := by
  rw [RelayPaths.get_alter] at held
  split at held
  · rename_i same
    subst same
    obtain ⟨before, found, rfl⟩ := map_eq_some_iff.mp held
    exact aims before found
  · exact aim.paths other path held

theorem follow {follow : List (DiscoPublicKey × SocketAddr × UInt32)}
    (allowed : ∀ ping ∈ follow, ok ping.2.1) :
    ∀ ping ∈ sock.pendingRelayPings ++ follow, ok ping.2.1 := by
  intro ping listed
  rcases mem_append.mp listed with before | new
  · exact aim.pending ping before
  · exact allowed ping new

/-- One call keeps the aim, if what it offers and the filter lets through is such an address. -/
theorem step (admits : Admits ok sock call) : (sock.step call).RelaysAim ok := by
  obtain ⟨env, event⟩ := call
  have effect := RelayEffect.of_handle sock env event
  rw [MagicSock.step]
  generalize sock.handle env event = result at effect ⊢
  cases effect with
  | aside alike silent =>
    refine ⟨fun peer path held => ?_, fun ping listed => ?_⟩
    · rw [alike.relayPaths] at held
      exact aim.paths peer path held
    · rw [alike.pending] at listed
      exact aim.pending ping listed
  | announced filtered inserted =>
    refine ⟨fun other path held => ?_, aim.pending⟩
    rw [RelayPaths.get_insert inserted] at held
    split at held
    · cases held
      exact .new _ _
    · exact aim.paths other path held
  | answered allowed held follows =>
    have fine := admits.source _ (mem_singleton_self _) allowed
    refine ⟨aim.alter fun path held => (aim.paths _ path held).noteAnswered fine,
      aim.follow fun ping new => ?_⟩
    rw [follows ping new]
    exact fine
  | pinged allowed follows =>
    refine ⟨aim.paths, aim.follow fun ping new => ?_⟩
    rw [follows ping new]
    exact admits.source _ (mem_singleton_self _) allowed
  | ponged held accepted same =>
    refine ⟨fun other path found => ?_, aim.pending⟩
    rw [same] at found
    exact aim.alter (fun _ _ => (aim.paths _ _ held).notePong _ _) other path found
  | due =>
    refine ⟨aim.paths, aim.follow fun ping new => ?_⟩
    obtain ⟨⟨key, path⟩, held, made⟩ := mem_filterMap.mp new
    obtain ⟨target, aimed, made⟩ := map_eq_some_iff.mp made
    cases made
    have held := RelayPaths.mem_entries_iff.mp (mem_of_mem_filter held)
    exact (aim.paths _ path held).pingTarget aimed
  | lapsed => exact ⟨aim.paths, fun ping listed =>
    aim.pending ping (mem_of_mem_eraseIdx listed)⟩
  | resumed listed held =>
    exact ⟨aim.alter fun _ _ => (aim.paths _ _ held).notePingSent (aim.pending _ listed) _ _,
      fun ping listed => aim.pending ping (mem_of_mem_eraseIdx listed)⟩
  | data usable => exact aim
  | forgotten =>
    refine ⟨fun other path held => ?_, aim.pending⟩
    rw [forgetRelayPath] at held
    rw [RelayPaths.get_remove] at held
    split at held
    · cases held
    · exact aim.paths other path held

theorem sends (admits : Admits ok sock call) {target : SocketAddr} {vni : UInt32}
    {message : RelayMessage} (sent : .relay target vni message ∈ sock.outputs call) :
    ok target := by
  obtain ⟨env, event⟩ := call
  have effect := RelayEffect.of_handle sock env event
  rw [outputs] at sent
  generalize sock.handle env event = result at effect sent
  cases effect with
  | aside alike silent => exact absurd (silent _ sent) Bool.noConfusion
  | announced filtered inserted =>
    obtain ⟨addr, listed, made⟩ := mem_map.mp sent
    cases made
    exact admits.plain _ (filtered _ listed).1 (filtered _ listed).2
  | answered allowed held follows =>
    cases mem_singleton.mp sent
    exact admits.source _ (mem_singleton_self _) allowed
  | pinged allowed follows =>
    cases mem_singleton.mp sent
    exact admits.source _ (mem_singleton_self _) allowed
  | ponged held accepted same => cases sent
  | due => cases sent
  | lapsed => cases sent
  | resumed listed held =>
    split at sent
    · cases mem_singleton.mp sent
      exact aim.pending _ listed
    · cases sent
  | data usable =>
    cases mem_singleton.mp sent
    obtain ⟨path, held, usable⟩ := bind_eq_some_iff.mp usable
    exact (aim.paths _ path held).usable usable
  | forgotten => cases sent

end RelaysAim

/-- On a dual-stack socket, no offered source is an IPv4-mapped address of a forbidden class. -/
def Unmapped (sock : MagicSock) (call : Call) : Prop :=
  sock.enableIpv6 = true → sock.sendsIpv6 = true →
    ∀ addr ∈ call.2.offered, addr.ip.isMapped = true → addr.ip.toCanonical.isForbidden = false

instance unmappedDecidable (sock : MagicSock) (call : Call) : Decidable (sock.Unmapped call) :=
  inferInstanceAs (Decidable (_ → _ → _))

theorem Unmapped.admits {sock : MagicSock} {call : Call} (unmapped : sock.Unmapped call) :
    Admits (fun addr => addr.ip.toCanonical.isForbidden = false) sock call := by
  refine ⟨fun addr offered allowed => ?_, fun _ plain allowed =>
    not_forbidden_of_allowed allowed plain⟩
  cases mapped : addr.ip.isMapped with
  | false => exact not_forbidden_of_allowed allowed mapped
  | true =>
    obtain ⟨enabled, dualStack⟩ := dualStack_of_mapped allowed mapped
    exact unmapped enabled dualStack addr offered mapped

/-- In every run in which no call offers a dual-stack socket a mapped source of a forbidden class,
no datagram of a relay leg goes to a forbidden host. -/
theorem relay_sends_allowed (ourDisco : DiscoPublicKey) (enableIpv6 sendsIpv6 : Bool)
    (calls : List Call) (unmapped : Along step Unmapped (bind ourDisco enableIpv6 sendsIpv6) calls)
    (target : SocketAddr) (vni : UInt32) (message : RelayMessage)
    (sent : .relay target vni message ∈
      trace step outputs (bind ourDisco enableIpv6 sendsIpv6) calls) :
    target.ip.toCanonical.isForbidden = false := by
  let ok : SocketAddr → Prop := fun addr => addr.ip.toCanonical.isForbidden = false
  have initial : (bind ourDisco enableIpv6 sendsIpv6).RelaysAim ok :=
    ⟨fun _ _ held => absurd held (some_ne_none _).symm, forall_mem_nil _⟩
  have all := forall_mem_trace step Unmapped outputs (RelaysAim ok)
    (fun output => ∀ target vni message, output = .relay target vni message → ok target)
    (fun _ _ aim meets => aim.step meets.admits)
    (fun _ _ aim meets output sent target vni message is =>
      aim.sends meets.admits (is ▸ sent)) _ initial unmapped
  exact all _ sent target vni message rfl

/-- An IPv4 address as a dual-stack socket reports it. -/
def mappedAddr (a b c d : UInt8) : SocketAddr :=
  ⟨⟨.v6, [0, 0, 0, 0, 0, 0, 0, 0, 0, 0, 255, 255, a, b, c, d], rfl⟩, 41641⟩

/-- A peer announces an endpoint, and the relay server's challenge for it comes from `src`. -/
def announcedAndChallenged (src : SocketAddr) : List Call :=
  [(Env.trusting 0 0, .relayed (.callMeMaybeVia [1] (relayEndpoint [1] [9] 7 [publicAddr 9])) [1]),
    (Env.trusting 1 0,
      .receive src
        (.geneveDisco 7 true (some (.bindUdpRelayEndpointChallenge [9] ⟨7, 1, [1], [5]⟩))))]

theorem relay_sends_allowed_mapped :
    Along step Unmapped (fresh true) (announcedAndChallenged (mappedAddr 198 51 100 9)) ∧
      .relay (mappedAddr 198 51 100 9) 7 (.answer [9] ⟨7, 1, [1], [5]⟩) ∈
        trace step outputs (fresh true) (announcedAndChallenged (mappedAddr 198 51 100 9)) ∧
      (mappedAddr 198 51 100 9).ip.toCanonical.isForbidden = false := by
  have unmapped : Along step Unmapped (fresh true)
      (announcedAndChallenged (mappedAddr 198 51 100 9)) := by
    decide +kernel
  have sent : .relay (mappedAddr 198 51 100 9) 7 (.answer [9] ⟨7, 1, [1], [5]⟩) ∈
      trace step outputs (fresh true) (announcedAndChallenged (mappedAddr 198 51 100 9)) := by
    decide +kernel
  exact ⟨unmapped, sent, relay_sends_allowed [0] true true _ unmapped _ _ _ sent⟩

/-- A challenge with the source `::ffff:127.0.0.1` is answered there: a datagram to loopback. -/
theorem relay_answer_to_mapped_loopback :
    .relay (mappedAddr 127 0 0 1) 7 (.answer [9] ⟨7, 1, [1], [5]⟩) ∈
        trace step outputs (fresh true) (announcedAndChallenged (mappedAddr 127 0 0 1)) ∧
      (mappedAddr 127 0 0 1).ip.toCanonical.isLoopback = true := by
  decide +kernel

end MagicSock

end TailscaleRs.Magicsock
