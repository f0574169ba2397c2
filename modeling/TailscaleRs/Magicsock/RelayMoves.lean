import TailscaleRs.Magicsock.Sock

namespace TailscaleRs.Magicsock

open List
open Control (SocketAddr)
open Time (Instant)

def Output.isRelay : Output → Bool
  | .relay _ _ _ => true
  | _ => false

/-- Nothing of the relays changes. -/
structure RelaysAlike (sock after : MagicSock) : Prop where
  relayPaths : after.relayPaths = sock.relayPaths
  pending : after.pendingRelayPings = sock.pendingRelayPings

namespace MagicSock

section Aside

variable (sock : MagicSock) (now : Instant) (peer : DiscoPublicKey)

theorem addPeerEndpoints_alike (endpoints : List SocketAddr) :
    RelaysAlike sock (sock.addPeerEndpoints now peer endpoints) := by
  rw [addPeerEndpoints]
  split <;> exact ⟨rfl, rfl⟩

theorem changedActiveDisco_alike (previous current : DiscoPublicKey) :
    RelaysAlike sock (sock.changedActiveDisco now previous current).1 := by
  rw [changedActiveDisco]
  split
  · exact ⟨rfl, rfl⟩
  · split
    · exact ⟨rfl, rfl⟩
    · split <;> exact ⟨rfl, rfl⟩

theorem setSilentDisco_alike {silent : Bool} : RelaysAlike sock (sock.setSilentDisco silent) := by
  rw [setSilentDisco]
  split <;> exact ⟨rfl, rfl⟩

theorem rebind_alike {bound : Option Bool} : RelaysAlike sock (sock.rebind bound) := by
  cases bound <;> exact ⟨rfl, rfl⟩

theorem pingPeer_alike {env : Env} {peer : DiscoPublicKey}
    {choose : PeerPaths → PeerPaths × List SocketAddr} :
    RelaysAlike sock (sock.pingPeer env peer choose).1 := by
  rw [pingPeer]
  split <;> exact ⟨rfl, rfl⟩

end Aside

theorem emitDiscoPings_direct (txId : SocketAddr → TxId) (peer : DiscoPublicKey)
    (addrs : List SocketAddr) : ∀ output ∈ emitDiscoPings txId peer addrs,
      output.isRelay = false := by
  intro output sent
  obtain ⟨addr, -, rfl⟩ := mem_map.mp sent
  rfl

theorem pingPeer_direct {sock : MagicSock} {env : Env} {peer : DiscoPublicKey}
    {choose : PeerPaths → PeerPaths × List SocketAddr} :
    ∀ output ∈ (sock.pingPeer env peer choose).2, output.isRelay = false := by
  rw [pingPeer]
  split
  · exact forall_mem_nil _
  · exact emitDiscoPings_direct _ _ _

end MagicSock

/-- What a call does on the relay legs: the state after it and its outputs. -/
inductive RelayEffect (sock : MagicSock) (env : Env) :
    MagicSock.Event → MagicSock × List Output → Prop
  /-- It leaves the relays alone. -/
  | aside {event : MagicSock.Event} {after : MagicSock} {outputs : List Output} :
      RelaysAlike sock after → (∀ output ∈ outputs, output.isRelay = false) →
      RelayEffect sock env event (after, outputs)
  /-- A peer announces an endpoint that supersedes the one it had. -/
  | announced {peer : DiscoPublicKey} {endpoint : RelayServerEndpoint} {src : NodePublicKey}
      {generation : UInt32} {relayPaths : RelayPaths} {addrs : List SocketAddr} :
      (∀ addr ∈ addrs, addr.ip.isMapped = false ∧ sock.relayAddrAllowed addr = true) →
      sock.relayPaths.insert peer { endpoint.fromWire with addrPorts := addrs } generation =
        some relayPaths →
      RelayEffect sock env (.relayed (.callMeMaybeVia peer endpoint) src)
        ({ sock with handshakeGeneration := generation, relayPaths },
          addrs.map fun addr => .relay addr endpoint.vni
            (.bind endpoint.serverDisco ⟨endpoint.vni, generation, peer, replicate 32 0⟩))
  /-- A relay server's challenge is answered, and a ping to the peer is to follow. -/
  | answered {server peer : DiscoPublicKey} {common : RelayHandshakeCommon} {src : SocketAddr}
      {vni : UInt32} {path : RelayPath} {follow : List (DiscoPublicKey × SocketAddr × UInt32)} :
      sock.relayAddrAllowed src = true → sock.relayPaths.get peer = some path →
      (∀ ping ∈ follow, ping = (peer, src, vni)) →
      RelayEffect sock env
        (.receive src (.geneveDisco vni true (some (.bindUdpRelayEndpointChallenge server common))))
        ({ sock with
            relayPaths := sock.relayPaths.alter peer fun path => path.noteAnswered src
            pendingRelayPings := sock.pendingRelayPings ++ follow },
          [.relay src vni (.answer server ⟨vni, path.generation, peer, common.challenge⟩)])
  /-- A relayed ping is ponged, and a ping back may follow. -/
  | pinged {sender : DiscoPublicKey} {txId : TxId} {claimed : Option NodePublicKey}
      {src : SocketAddr} {vni : UInt32}
      {follow : List (DiscoPublicKey × SocketAddr × UInt32)} :
      sock.relayAddrAllowed src = true → (∀ ping ∈ follow, ping = (sender, src, vni)) →
      RelayEffect sock env
        (.receive src (.geneveDisco vni false (some (.ping sender txId claimed))))
        ({ sock with pendingRelayPings := sock.pendingRelayPings ++ follow },
          [.relay src vni (.pong sender txId src)])
  /-- A relayed pong is consumed; what is attributed does not change the paths. -/
  | ponged {sender : DiscoPublicKey} {txId : TxId} {src : SocketAddr} {vni : UInt32}
      {path : RelayPath} {relayPaths : RelayPaths} :
      sock.relayPaths.get sender = some path → path.acceptsPongFrom src = true →
      (∀ peer, relayPaths.get peer =
        (sock.relayPaths.alter sender fun _ => (path.notePong txId env.now).1).get peer) →
      RelayEffect sock env (.receive src (.geneveDisco vni false (some (.pong sender txId))))
        ({ sock with relayPaths }, [])
  /-- The pings that are due are taken down. -/
  | due :
      RelayEffect sock env .sendRelayPings
        ({ sock with
            pendingRelayPings :=
              sock.pendingRelayPings ++ sock.relayPaths.wantingPing env.now relayRefreshLead },
          [])
  /-- A pending ping finds no path. -/
  | lapsed {n : Nat} :
      RelayEffect sock env (.resumeRelayPing n)
        ({ sock with pendingRelayPings := sock.pendingRelayPings.eraseIdx n }, [])
  /-- A pending ping is recorded and sent, unless too many are in flight. -/
  | resumed {n : Nat} {peer : DiscoPublicKey} {addr : SocketAddr} {vni : UInt32}
      {path : RelayPath} :
      (peer, addr, vni) ∈ sock.pendingRelayPings → sock.relayPaths.get peer = some path →
      RelayEffect sock env (.resumeRelayPing n)
        ({ sock with
            pendingRelayPings := sock.pendingRelayPings.eraseIdx n
            relayPaths := sock.relayPaths.alter peer fun _ =>
              (path.notePingSent (env.txId peer addr) addr env.now).1 },
          if (path.notePingSent (env.txId peer addr) addr env.now).2 then
            [.relay addr vni (.ping peer (env.txId peer addr))] else [])
  /-- Data goes over the relay path of a peer. -/
  | data {peer : DiscoPublicKey} {payload : Bytes} {addr : SocketAddr} {vni : UInt32} :
      sock.relayPath env.now peer = some (addr, vni) →
      RelayEffect sock env (.sendWireguard peer payload)
        (sock, [.relay addr vni (.wireguard payload)])
  | forgotten {peer : DiscoPublicKey} :
      RelayEffect sock env (.forgetRelayPath peer) (sock.forgetRelayPath peer, [])

namespace RelayEffect

open MagicSock

variable (sock : MagicSock) (env : Env) (event : MagicSock.Event)

theorem idle : RelayEffect sock env event (sock, []) :=
  .aside ⟨rfl, rfl⟩ (forall_mem_nil _)

section Legs

theorem of_challenge (server : DiscoPublicKey) (common : RelayHandshakeCommon) (src : SocketAddr)
    (vni : UInt32) (allowed : sock.relayReplyTargetAllowed src = true) :
    RelayEffect sock env
      (.receive src (.geneveDisco vni true (some (.bindUdpRelayEndpointChallenge server common))))
      (sock.handleRelayChallenge env server common src vni) := by
  rw [handleRelayChallenge]
  split
  · exact idle sock env _
  · split
    · exact idle sock env _
    · split
      · exact idle sock env _
      · rename_i path held
        split
        · exact idle sock env _
        · split
          · exact idle sock env _
          · refine .answered allowed held fun ping listed => ?_
            split at listed
            · exact mem_singleton.mp listed
            · cases listed

variable (sender : DiscoPublicKey)

theorem of_ping (claimed : Option NodePublicKey) (txId : TxId) (src : SocketAddr) (vni : UInt32)
    (allowed : sock.relayReplyTargetAllowed src = true) :
    RelayEffect sock env (.receive src (.geneveDisco vni false (some (.ping sender txId claimed))))
      (sock.handleRelayPing env sender claimed txId src vni) := by
  rw [handleRelayPing.eq_def]
  split
  · split
    · refine .pinged allowed fun ping listed => ?_
      split at listed
      · exact mem_singleton.mp listed
      · cases listed
    · exact idle sock env _
  · exact idle sock env _

theorem of_pong (txId : TxId) (src : SocketAddr) (vni : UInt32) :
    RelayEffect sock env (.receive src (.geneveDisco vni false (some (.pong sender txId))))
      (sock.handleRelayPong env.now sender txId src vni, []) := by
  rw [handleRelayPong]
  split
  · exact idle sock env _
  · rename_i path held
    split
    case isTrue accepted =>
      rw [Bool.and_eq_true] at accepted
      dsimp only
      split
      · exact .ponged held accepted.2 fun _ => rfl
      · refine .ponged held accepted.2 fun peer => ?_
        rw [attributePong]
        split
        · rfl
        · split <;> rfl
    case isFalse => exact idle sock env _

theorem of_announcement (peer : DiscoPublicKey) (endpoint : RelayServerEndpoint)
    (src : NodePublicKey) :
    RelayEffect sock env (.relayed (.callMeMaybeVia peer endpoint) src)
      (sock.startRelayHandshake peer endpoint.fromWire) := by
  rw [startRelayHandshake]
  split
  · exact idle sock env _
  · dsimp only
    split
    · exact idle sock env _
    · split
      · exact .aside ⟨rfl, rfl⟩ (forall_mem_nil _)
      · rename_i inserted
        refine .announced (fun addr kept => ?_) inserted
        obtain ⟨listed, allowed⟩ := mem_filter.mp kept
        obtain ⟨wire, -, rfl⟩ := mem_map.mp listed
        exact ⟨wire.ip.isMapped_toCanonical, allowed⟩

theorem of_relayDisco (message : Inbound) (src : SocketAddr) (vni : UInt32) (control : Bool) :
    RelayEffect sock env (.receive src (.geneveDisco vni control (some message)))
      (sock.handleRelayDisco env message src vni control) := by
  rw [handleRelayDisco.eq_def]
  split
  · split
    case isTrue allowed => exact of_challenge sock env _ _ src vni allowed
    case isFalse => exact idle sock env _
  · split
    case isTrue allowed => exact of_ping sock env _ _ _ src vni allowed
    case isFalse => exact idle sock env _
  · exact of_pong sock env _ _ src vni
  · exact idle sock env _

theorem of_resumed (n : Nat) :
    RelayEffect sock env (.resumeRelayPing n) (sock.resumeRelayPing env n) := by
  rw [resumeRelayPing]
  split
  · exact idle sock env _
  · rename_i peer addr vni found
    rw [sendRelayPing]
    split
    · exact .lapsed
    · rename_i path held
      exact .resumed (mem_of_getElem? found) held

end Legs

theorem of_disco (message : Inbound) (src : SocketAddr) (event : MagicSock.Event) :
    RelayEffect sock env event (sock.handleDisco env message src) := by
  rw [handleDisco.eq_def]
  split
  · split
    · exact .aside (sock.addPeerEndpoints_alike _ _ _) (forall_mem_singleton.mpr rfl)
    · exact idle sock env _
  · exact .aside ⟨rfl, rfl⟩ (forall_mem_nil _)
  · exact idle sock env _

theorem of_receive (src : SocketAddr) {datagram : Datagram} :
    RelayEffect sock env (.receive src datagram) (sock.demuxDatagram env src datagram) := by
  rw [demuxDatagram.eq_def]
  split
  · exact of_relayDisco sock env _ src _ _
  · split
    · exact idle sock env _
    · exact .aside ⟨rfl, rfl⟩ (forall_mem_singleton.mpr rfl)
  · split
    · exact idle sock env _
    · refine .aside ?_ (forall_mem_singleton.mpr rfl)
      rw [noteDataRecvActivity]
      split <;> exact ⟨rfl, rfl⟩
  · exact of_disco sock env _ src _
  · exact idle sock env _
  · exact idle sock env _

theorem of_relayed {message : Inbound} (src : NodePublicKey) :
    RelayEffect sock env (.relayed message src) (sock.handleRelayedDisco env message src) := by
  rw [handleRelayedDisco.eq_def]
  split
  · refine .aside ⟨rfl, rfl⟩ fun output sent => ?_
    split at sent
    · rw [mem_singleton.mp sent]
      rfl
    · cases sent
  · split
    · have learned := sock.addPeerEndpoints_alike env.now
      exact .aside
        ⟨(pingPeer_alike _).relayPaths.trans (learned _ _).relayPaths,
          (pingPeer_alike _).pending.trans (learned _ _).pending⟩
        pingPeer_direct
    · exact idle sock env _
  · split
    · exact of_announcement sock env _ _ src
    · exact idle sock env _
  · exact idle sock env _

theorem of_data (peer : DiscoPublicKey) {payload : Bytes} :
    RelayEffect sock env (.sendWireguard peer payload)
      (sock, sock.sendWireguard env peer payload) := by
  rw [sendWireguard]
  split
  · exact .aside ⟨rfl, rfl⟩ (forall_mem_singleton.mpr rfl)
  · split
    · rename_i usable
      exact .data usable
    · exact idle sock env _

theorem of_handle : RelayEffect sock env event (sock.handle env event) := by
  cases event with
  | receive src datagram => exact of_receive sock env src
  | relayed message src => exact of_relayed sock env src
  | addPeerEndpoints peer endpoints =>
    exact .aside (sock.addPeerEndpoints_alike _ _ _) (forall_mem_nil _)
  | setNetmapEndpoints | retainPeers | notePeerActivity =>
    exact .aside ⟨rfl, rfl⟩ (forall_mem_nil _)
  | changedActiveDisco previous current =>
    exact .aside (sock.changedActiveDisco_alike _ _ _) (forall_mem_nil _)
  | setSilentDisco silent =>
    exact .aside sock.setSilentDisco_alike (forall_mem_nil _)
  | rebind bound => exact .aside sock.rebind_alike (forall_mem_nil _)
  | sendDirectPings =>
    refine .aside ⟨rfl, rfl⟩ fun output sent => ?_
    obtain ⟨entry, -, sent⟩ := mem_flatMap.mp sent
    exact emitDiscoPings_direct _ _ _ output sent
  | sendRelayPings => exact .due
  | resumeRelayPing n => exact of_resumed sock env n
  | sendDiscoveryPings | sendPingsToPeerNow | pingNow =>
    exact .aside (pingPeer_alike _) pingPeer_direct
  | sendWireguard peer payload => exact of_data sock env peer
  | forgetRelayPath peer => exact .forgotten

end RelayEffect

end TailscaleRs.Magicsock
