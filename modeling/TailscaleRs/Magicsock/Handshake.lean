import TailscaleRs.Magicsock.Sock

namespace TailscaleRs.Magicsock

open Control (SocketAddr)

namespace MagicSock

section Challenge

variable {sock : MagicSock} (env : Env) {peer other server : DiscoPublicKey} {path : RelayPath}
  (challenge : RelayHandshakeCommon) (src : SocketAddr) {vni : UInt32}

theorem handleRelayChallenge_found (sealedVni : challenge.vni = vni)
    (found : sock.relayPaths.peerForServer env.visit server vni = some peer)
    (held : sock.relayPaths.get peer = some path) (names : challenge.remoteKey = peer)
    (awaits : path.state = .bindSent) :
    (sock.handleRelayChallenge env server challenge src vni).1.relayPaths.get peer =
        some (path.noteAnswered src) ∧
      (sock.handleRelayChallenge env server challenge src vni).2 =
        [.relay src vni (.answer server ⟨vni, path.generation, peer, challenge.challenge⟩)] := by
  have unanswered : path.state ≠ .answerSent := by
    rw [awaits]
    rintro ⟨⟩
  simp only [handleRelayChallenge, sealedVni, found, held, names, ne_eq, not_true_eq_false,
    if_false, if_neg unanswered, and_true]
  rw [RelayPaths.get_alter, if_pos rfl, held]
  rfl

theorem handleRelayChallenge_other (found : sock.relayPaths.peerForServer env.visit server vni =
      some other) (names : challenge.remoteKey ≠ other) :
    sock.handleRelayChallenge env server challenge src vni = (sock, []) := by
  rw [handleRelayChallenge]
  split
  · rfl
  · rw [found]
    dsimp only
    split
    · rfl
    · rw [if_pos names]

end Challenge

/-- A challenge of a relay server for the handshake with a peer, over its VNI. -/
def challengeEvent (server peer : DiscoPublicKey) (vni generation : UInt32) (challenge : Bytes)
    (src : SocketAddr) : Event :=
  .receive src
    (.geneveDisco vni true
      (some (.bindUdpRelayEndpointChallenge server ⟨vni, generation, peer, challenge⟩)))

/-- The call moves the handshake with the peer on and answers its challenge at the source. -/
def Answers (sock : MagicSock) (call : Call) (peer server : DiscoPublicKey) (path : RelayPath)
    (vni : UInt32) (challenge : Bytes) (src : SocketAddr) : Prop :=
  (sock.step call).relayPaths.get peer = some (path.noteAnswered src) ∧
    .relay src vni (.answer server ⟨vni, path.generation, peer, challenge⟩) ∈ sock.outputs call

/-- Whatever the history, a challenge for a handshake that awaits it is answered in every order of
the walk just if no other peer has an endpoint on the same server and VNI. -/
theorem challenge_answered_iff (start : MagicSock) (calls : List Call) (env : Env)
    (peer server : DiscoPublicKey) (path : RelayPath) (vni generation : UInt32) (challenge : Bytes)
    (src : SocketAddr) (held : (run step start calls).relayPaths.get peer = some path)
    (on : path.OnServer server vni) (awaits : path.state = .bindSent)
    (allowed : (run step start calls).relayReplyTargetAllowed src = true) :
    (∀ visit, (run step start calls).Answers
      ({ env with visit }, challengeEvent server peer vni generation challenge src)
      peer server path vni challenge src) ↔
    ∀ other otherPath, other ≠ peer →
      (run step start calls).relayPaths.get other = some otherPath →
      ¬otherPath.OnServer server vni := by
  generalize run step start calls = sock at *
  have handles : ∀ env : Env,
      sock.handle env (challengeEvent server peer vni generation challenge src) =
        sock.handleRelayChallenge env server ⟨vni, generation, peer, challenge⟩ src vni := by
    intro env
    show (if sock.relayReplyTargetAllowed src then _ else _) = _
    rw [if_pos allowed]
  constructor
  · intro answered other otherPath apart otherHeld otherOn
    -- The walk that comes to the other handshake first drops the challenge.
    have first := RelayPaths.exists_visit_peerForServer otherHeld otherOn
    have replies := (answered (Visit.front fun entry => entry.1 = other)).2
    rw [outputs, handles, handleRelayChallenge_other _ _ _ first apart.symm] at replies
    cases replies
  · intro sole visit
    have some' : (sock.relayPaths.peerForServer visit server vni).isSome := by
      rw [RelayPaths.peerForServer, Option.isSome_map, List.find?_isSome]
      refine ⟨⟨peer, path⟩, (visit.perm _).mem_iff.mpr (RelayPaths.mem_entries_iff.mpr held), ?_⟩
      rw [on.1, on.2, decide_eq_true rfl, decide_eq_true rfl]
      rfl
    obtain ⟨found, is⟩ := Option.isSome_iff_exists.mp some'
    obtain ⟨foundPath, foundHeld, foundOn⟩ := RelayPaths.peerForServer_some is
    have same : found = peer := by
      by_contra apart
      exact sole found foundPath apart foundHeld foundOn
    subst same
    obtain ⟨advanced, replies⟩ := handleRelayChallenge_found { env with visit }
      ⟨vni, generation, found, challenge⟩ src rfl is held rfl awaits
    rw [Answers, step, outputs, handles, replies]
    exact ⟨advanced, List.mem_singleton_self _⟩

/-- A peer announces an endpoint on the relay server `[9]`, over DERP. -/
def announces (peer : DiscoPublicKey) : Call :=
  (Env.trusting 0 0, .relayed (.callMeMaybeVia peer (relayEndpoint peer [9] 7 [publicAddr 9])) peer)

theorem challenge_answered_iff_sole :
    (run step (fresh false) [announces [1]]).relayReplyTargetAllowed (publicAddr 9) = true ∧
      ∀ visit, (run step (fresh false) [announces [1]]).Answers
        ({ Env.trusting 1 0 with visit }, challengeEvent [9] [1] 7 1 [5] (publicAddr 9))
        [1] [9] { endpoint := relayEndpoint [1] [9] 7 [publicAddr 9], generation := 1 } 7 [5]
        (publicAddr 9) := by
  refine ⟨by decide +kernel, ?_⟩
  refine (challenge_answered_iff (fresh false) [announces [1]] (Env.trusting 1 0) [1] [9] _ 7 1
    [5] (publicAddr 9) (by decide +kernel) ⟨rfl, rfl⟩ rfl (by decide +kernel)).mpr ?_
  intro other otherPath apart otherHeld
  have entries : (run step (fresh false) [announces [1]]).relayPaths.byPeer.entries =
      [⟨[1], { endpoint := relayEndpoint [1] [9] 7 [publicAddr 9], generation := 1 }⟩] := by
    decide +kernel
  have listed := RelayPaths.mem_entries_iff.mpr otherHeld
  rw [entries, List.mem_singleton] at listed
  cases listed
  exact absurd rfl apart

/-- Two peers announce endpoints on one server and VNI. The handshake with the first awaits its
challenge, and the challenge is dropped: the walk comes to the other one. -/
theorem challenge_dropped_for_shared_endpoint :
    ∃ calls path visit,
      (run step (fresh false) calls).relayPaths.get [1] = some path ∧
      path.OnServer [9] 7 ∧ path.state = .bindSent ∧
      (run step (fresh false) calls).relayReplyTargetAllowed (publicAddr 9) = true ∧
      ¬(run step (fresh false) calls).Answers
        ({ Env.trusting 1 0 with visit }, challengeEvent [9] [1] 7 1 [5] (publicAddr 9))
        [1] [9] path 7 [5] (publicAddr 9) ∧
      (run step (fresh false) calls).step
        ({ Env.trusting 1 0 with visit }, challengeEvent [9] [1] 7 1 [5] (publicAddr 9)) =
        run step (fresh false) calls := by
  refine ⟨[announces [1], announces [2]],
    { endpoint := relayEndpoint [1] [9] 7 [publicAddr 9], generation := 1 }, Visit.plain _,
    by decide +kernel, ⟨rfl, rfl⟩, rfl, by decide +kernel, ?_, by decide +kernel⟩
  rintro ⟨-, replies⟩
  cases replies

end MagicSock

end TailscaleRs.Magicsock
