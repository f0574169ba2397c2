import TailscaleRs.Tunnel.Peer

namespace TailscaleRs.Tunnel

open List Option MacReceiver WgCrypto HandshakeInitiation Message
open Time (Instant Handle)

theorem slice_append {front part rest : Bytes} {start size : Nat} (before : front.length = start)
    (within : part.length = size) : slice (front ++ (part ++ rest)) start size = part := by
  subst before within
  rw [slice, drop_left, take_left]

theorem littleEndian_length {width n : Nat} : (littleEndian width n).length = width := by
  rw [littleEndian, length_reverse, BigEndian.toBytes_length]

theorem SessionId.toBytes_length (id : SessionId) : id.toBytes.length = 4 :=
  littleEndian_length

theorem sessionIdAt_append (front rest : Bytes) (id : SessionId) (start : Nat)
    (before : front.length = start) :
    sessionIdAt (front ++ (id.toBytes ++ rest)) start = id := by
  have fits : id.val.toNat < 256 ^ 4 := id.val.toNat_lt
  rw [sessionIdAt, slice_append before id.toBytes_length,
    SessionId.toBytes, littleEndian, ofLittleEndian, reverse_reverse,
    BigEndian.ofBytes_toBytes 4 _ fits, UInt32.ofNat_toNat]

theorem Tai64n.toBytes_length (stamp : Tai64n) : stamp.toBytes.length = 12 := by
  rw [Tai64n.toBytes, length_append, BigEndian.toBytes_length, BigEndian.toBytes_length]

theorem Tai64n.ofBytes_toBytes (stamp : Tai64n) : Tai64n.ofBytes stamp.toBytes = stamp := by
  have secs : stamp.secs.toNat < 256 ^ 8 := stamp.secs.toNat_lt
  have nanos : stamp.nanos.toNat < 256 ^ 4 := stamp.nanos.toNat_lt
  have width : (BigEndian.toBytes 8 stamp.secs.toNat).length = 8 := BigEndian.toBytes_length 8 _
  rw [Tai64n.toBytes, Tai64n.ofBytes, take_left' width, drop_left' width,
    BigEndian.ofBytes_toBytes 8 _ secs, BigEndian.ofBytes_toBytes 4 _ nanos, UInt64.ofNat_toNat,
    UInt32.ofNat_toNat]

/-- What the handshake takes for granted of the primitives: Diffie-Hellman commutes, the AEAD
opens what it sealed, the hash is injective, the HKDF outputs that a psk is mixed in by tell psks
apart, and all outputs have their documented sizes. -/
structure WgCrypto.Sane (W : WgCrypto) : Prop where
  commutes : ∀ a b, W.diffieHellman a (W.publicKey b) = W.diffieHellman b (W.publicKey a)
  opens : ∀ key nonce aad plaintext,
    W.aeadDecrypt key nonce aad (W.aeadEncrypt key nonce aad plaintext) = some plaintext
  hash : Function.Injective W.blake2s256
  hkdf : ∀ chainingKey psk other : Bytes, psk.length = 32 → other.length = 32 →
    (hkdf3 W chainingKey psk).2 = (hkdf3 W chainingKey other).2 → psk = other
  publicSize : ∀ secret : Bytes, secret.length = 32 → (W.publicKey secret).length = 32
  sealedSize : ∀ key nonce aad plaintext,
    (W.aeadEncrypt key nonce aad plaintext).length = plaintext.length + 16
  macSize : ∀ key data, (W.blake2sMac key data).length = 16

/-- Opening this sealed text succeeds with the key, nonce and associated data it was sealed with,
and with no others. -/
def WgCrypto.OpensOnly (W : WgCrypto) (key nonce aad plaintext : Bytes) : Prop :=
  ∀ otherKey otherNonce otherAad,
    (W.aeadDecrypt otherKey otherNonce otherAad (W.aeadEncrypt key nonce aad plaintext)).isSome →
      otherKey = key ∧ otherNonce = nonce ∧ otherAad = aad

section

variable {W : WgCrypto} (sane : W.Sane)

include sane

theorem KeyedState.encrypt_length (s : KeyedState) (cleartext : Bytes) :
    (s.encrypt W cleartext).2.length = cleartext.length + 16 :=
  sane.sealedSize _ _ _ _

theorem KeyedState.decrypt_encrypt (s : KeyedState) (cleartext : Bytes) :
    s.decrypt W (s.encrypt W cleartext).2 = some ((s.encrypt W cleartext).1, cleartext) := by
  rw [KeyedState.decrypt, KeyedState.encrypt]
  rw [sane.opens]
  rfl

theorem MacSender.writeMacs_spec (sender : MacSender) {now : Instant} {data blank : Bytes}
    (size : blank.length = 32) :
    ∃ mac2, (sender.writeMacs W now (data ++ blank)).1 =
        data ++ (W.blake2sMac sender.mac1Key data ++ mac2) ∧ mac2.length = 16 := by
  have content : (data ++ blank).take ((data ++ blank).length - 32) = data := by
    rw [length_append, size, Nat.add_sub_cancel, take_left]
  rw [MacSender.writeMacs]
  rw [content]
  refine ⟨_, append_assoc _ _ _, ?_⟩
  split
  · split
    · exact sane.macSize _ _
    · exact length_replicate
  · exact length_replicate

theorem MacReceiver.verifyMacs_of (receiver : MacReceiver) {data mac2 : Bytes}
    (size : mac2.length = 16) :
    receiver.verifyMacs W (data ++ (W.blake2sMac receiver.mac1Key data ++ mac2)) := by
  have total : (data ++ (W.blake2sMac receiver.mac1Key data ++ mac2)).length - 32 =
      data.length := by
    rw [length_append, length_append, sane.macSize, size]
    omega
  rw [verifyMacs, total, take_left,
    slice_append rfl (sane.macSize _ _), decide_eq_true rfl,
    Bool.and_true, decide_eq_true_eq, length_append, length_append, sane.macSize, size]
  omega

end

structure Secret where
  bytes : Bytes
  size : bytes.length = 32

/-- One handshake: the keys of both ends, what they draw, and their MAC states for each other. -/
structure Exchange (W : WgCrypto) where
  initiator : Secret
  responder : Secret
  initiatorEphemeral : Secret
  responderEphemeral : Secret
  psk : Secret
  timestamp : Tai64n
  initiatorId : SessionId
  responderId : SessionId
  toResponder : MacSender
  toInitiator : MacSender
  forResponder : toResponder.mac1Key = mac1Key W (W.publicKey responder.bytes)
  forInitiator : toInitiator.mac1Key = mac1Key W (W.publicKey initiator.bytes)
  initiatedAt : Instant
  respondedAt : Instant
  finishedAt : Instant

namespace Exchange

variable {W : WgCrypto} (x : Exchange W)

def initiation : SentHandshake × Bytes :=
  initiateHandshake W x.initiator.bytes (W.publicKey x.responder.bytes) x.initiatorId x.timestamp
    x.initiatorEphemeral.bytes

def initiationPacket : Bytes × Bytes :=
  x.toResponder.writeMacs W x.initiatedAt x.initiation.2

def responderKeys : NodeKeyPair := ⟨x.responder.bytes, W.publicKey x.responder.bytes⟩

/-- What the responder is to have received. -/
def received : ReceivedHandshake where
  sendId := x.initiatorId
  peerEphemeral := W.publicKey x.initiatorEphemeral.bytes
  peerStatic := W.publicKey x.initiator.bytes
  timestamp := x.timestamp
  handshake := x.initiation.1.handshake

def response : SessionPair × Bytes :=
  x.received.respond W x.responderId x.psk.bytes x.toInitiator x.respondedAt
    x.responderEphemeral.bytes

/-- The initiator's handshake state, with its initiation in flight. -/
def inFlight (timeout : Handle) (tentative : Option SessionPair) : Handshake :=
  ⟨some ⟨x.initiation.1, timeout, x.initiationPacket.2⟩, tentative⟩

def transcript : HandshakeState :=
  let ephemeralPub := W.publicKey x.responderEphemeral.bytes
  (((((x.initiation.1.handshake.mixHash W ephemeralPub).mixKey W ephemeralPub).mixKey W
    (W.diffieHellman x.initiatorEphemeral.bytes ephemeralPub)).mixKey W
    (W.diffieHellman x.initiator.bytes ephemeralPub))).toHandshakeState

/-- The state that the response's authentication tag is sealed in. -/
def sealing (psk : Bytes) : KeyedState := x.transcript.mixPsk W psk

/-- The state that the initiator's static key is sealed in. -/
def staticKeyed : KeyedState :=
  let ephemeralPub := W.publicKey x.initiatorEphemeral.bytes
  (((HandshakeState.new W (W.publicKey x.responder.bytes)).mixHash W ephemeralPub).mixKey W
    ephemeralPub).mixKey W
    (W.diffieHellman x.initiatorEphemeral.bytes (W.publicKey x.responder.bytes))

/-- The state that the timestamp is sealed in. -/
def stampKeyed : KeyedState :=
  (x.staticKeyed.encrypt W (W.publicKey x.initiator.bytes)).1.mixKey W
    (W.diffieHellman x.initiator.bytes (W.publicKey x.responder.bytes))

def initiationData : Bytes :=
  [1, 0, 0, 0] ++ x.initiatorId.toBytes ++ W.publicKey x.initiatorEphemeral.bytes ++
    (x.staticKeyed.encrypt W (W.publicKey x.initiator.bytes)).2 ++
    (x.stampKeyed.encrypt W x.timestamp.toBytes).2

def responseData (tag : Bytes) : Bytes :=
  [2, 0, 0, 0] ++ x.responderId.toBytes ++ x.initiatorId.toBytes ++
    W.publicKey x.responderEphemeral.bytes ++ tag

variable (sane : W.Sane)

include sane

theorem initiationData_length : x.initiationData.length = 116 := by
  simp only [initiationData, length_append, length_cons, length_nil,
    x.initiatorId.toBytes_length, sane.publicSize _ x.initiatorEphemeral.size,
    KeyedState.encrypt_length sane, sane.publicSize _ x.initiator.size,
    x.timestamp.toBytes_length]

/-- The initiation arrives as it was sent: its fields are where the responder looks for them,
and its first MAC is accepted. -/
theorem initiationPacket_spec :
    ∃ init : HandshakeInitiation,
      parse x.initiationPacket.1 = some (.handshakeInitiation init) ∧
      init.senderId = x.initiatorId ∧
      init.ephemeralPub = W.publicKey x.initiatorEphemeral.bytes ∧
      init.staticPubSealed = (x.staticKeyed.encrypt W (W.publicKey x.initiator.bytes)).2 ∧
      init.timestampSealed = (x.stampKeyed.encrypt W x.timestamp.toBytes).2 ∧
      (new W (W.publicKey x.responder.bytes)).verifyMacs W init.raw := by
  obtain ⟨mac2, written, size⟩ := x.toResponder.writeMacs_spec sane length_replicate
  have packet : x.initiationPacket.1 =
      x.initiationData ++ (W.blake2sMac x.toResponder.mac1Key x.initiationData ++ mac2) := written
  have length : x.initiationPacket.1.length = 148 := by
    rw [packet, length_append, length_append, x.initiationData_length sane, sane.macSize, size]
  have ephemeral := sane.publicSize _ x.initiatorEphemeral.size
  have sealedStatic := x.staticKeyed.encrypt_length sane (W.publicKey x.initiator.bytes)
  rw [sane.publicSize _ x.initiator.size] at sealedStatic
  have sealedStamp := x.stampKeyed.encrypt_length sane x.timestamp.toBytes
  refine ⟨⟨x.initiationPacket.1, length⟩, ?_, ?_, ?_, ?_, ?_, ?_⟩
  · have head : x.initiationPacket.1.head? = some 1 := by
      rw [packet]
      rfl
    rw [parse, head]
    simp only [if_true, length, dite_true]
  all_goals
    simp only [senderId, ephemeralPub,
      staticPubSealed, timestampSealed, packet]
  · rw [initiationData]
    exact sessionIdAt_append [1, 0, 0, 0] _ x.initiatorId 4 rfl
  · rw [initiationData, append_assoc, append_assoc, append_assoc]
    exact slice_append
      (by rw [length_append, x.initiatorId.toBytes_length]; rfl) ephemeral
  · rw [initiationData, append_assoc, append_assoc]
    exact slice_append
      (by rw [length_append, length_append, x.initiatorId.toBytes_length, ephemeral]; rfl)
      sealedStatic
  · rw [initiationData, append_assoc]
    exact slice_append
      (by rw [length_append, length_append, length_append,
        x.initiatorId.toBytes_length, ephemeral, sealedStatic]; rfl)
      sealedStamp
  · have key : x.toResponder.mac1Key =
        (new W (W.publicKey x.responder.bytes)).mac1Key := x.forResponder
    rw [key]
    exact verifyMacs_of sane _ size

/-- The responder recovers what the initiator sealed, and is in the initiator's state. -/
theorem received_spec (init : HandshakeInitiation) (sender : init.senderId = x.initiatorId)
    (ephemeral : init.ephemeralPub = W.publicKey x.initiatorEphemeral.bytes)
    (static : init.staticPubSealed = (x.staticKeyed.encrypt W (W.publicKey x.initiator.bytes)).2)
    (stamp : init.timestampSealed = (x.stampKeyed.encrypt W x.timestamp.toBytes).2)
    (macs : (new W (W.publicKey x.responder.bytes)).verifyMacs W init.raw) :
    ReceivedHandshake.new W init x.responderKeys
      (new W (W.publicKey x.responder.bytes)) = some x.received := by
  have first : (((HandshakeState.new W x.responderKeys.publicKey).mixHash W
      init.ephemeralPub).mixKey W init.ephemeralPub).mixKey W
      (W.diffieHellman x.responderKeys.secret init.ephemeralPub) = x.staticKeyed := by
    rw [ephemeral, responderKeys, sane.commutes]
    rfl
  have second : (x.staticKeyed.encrypt W (W.publicKey x.initiator.bytes)).1.mixKey W
      (W.diffieHellman x.responderKeys.secret (W.publicKey x.initiator.bytes)) = x.stampKeyed := by
    rw [responderKeys, sane.commutes]
    rfl
  rw [ReceivedHandshake.new, if_neg (not_not.mpr macs)]
  dsimp only
  rw [first, static, x.staticKeyed.decrypt_encrypt sane]
  simp only [bind_eq_bind, bind_some]
  rw [second, stamp, x.stampKeyed.decrypt_encrypt sane]
  simp only [Option.bind_some, sender, ephemeral, Tai64n.ofBytes_toBytes]
  rfl

theorem response_eq :
    x.response =
      (⟨TransmitSession.new (((x.sealing x.psk.bytes).encrypt W []).1.finish W).responderToInitiator
          x.initiatorId x.respondedAt,
        ReceiveSession.new (((x.sealing x.psk.bytes).encrypt W []).1.finish W).initiatorToResponder
          x.responderId x.respondedAt⟩,
        (x.toInitiator.writeMacs W x.respondedAt
          (x.responseData ((x.sealing x.psk.bytes).encrypt W []).2 ++ replicate 32 0)).1) := by
  have ee := sane.commutes x.responderEphemeral.bytes x.initiatorEphemeral.bytes
  have se := sane.commutes x.responderEphemeral.bytes x.initiator.bytes
  rw [response, ReceivedHandshake.respond, received]
  rw [ee, se]
  rfl

theorem responseData_length {tag : Bytes} (size : tag.length = 16) :
    (x.responseData tag).length = 60 := by
  simp only [responseData, length_append, length_cons, length_nil,
    x.initiatorId.toBytes_length, x.responderId.toBytes_length,
    sane.publicSize _ x.responderEphemeral.size, size]

theorem responsePacket_spec :
    ∃ response : HandshakeResponse,
      parse x.response.2 = some (.handshakeResponse response) ∧
      response.senderId = x.responderId ∧
      response.receiverId = x.initiatorId ∧
      response.ephemeralPub = W.publicKey x.responderEphemeral.bytes ∧
      response.authTag = ((x.sealing x.psk.bytes).encrypt W []).2 ∧
      (new W (W.publicKey x.initiator.bytes)).verifyMacs W response.raw := by
  have tagSize : ((x.sealing x.psk.bytes).encrypt W []).2.length = 16 :=
    (x.sealing x.psk.bytes).encrypt_length sane []
  generalize tag : ((x.sealing x.psk.bytes).encrypt W []).2 = authTag at tagSize ⊢
  obtain ⟨mac2, written, size⟩ := x.toInitiator.writeMacs_spec sane length_replicate
  have packet : x.response.2 = x.responseData authTag ++
      (W.blake2sMac x.toInitiator.mac1Key (x.responseData authTag) ++ mac2) := by
    rw [x.response_eq sane, tag]
    exact written
  have length : x.response.2.length = 92 := by
    rw [packet, length_append, length_append, x.responseData_length sane tagSize,
      sane.macSize, size]
  have ephemeral := sane.publicSize _ x.responderEphemeral.size
  refine ⟨⟨x.response.2, length⟩, ?_, ?_, ?_, ?_, ?_, ?_⟩
  · have head : x.response.2.head? = some 2 := by
      rw [packet]
      rfl
    rw [parse, head]
    simp [length]
  all_goals
    simp only [HandshakeResponse.senderId, HandshakeResponse.receiverId,
      HandshakeResponse.ephemeralPub, HandshakeResponse.authTag, packet]
  · rw [responseData]
    exact sessionIdAt_append [2, 0, 0, 0] _ x.responderId 4 rfl
  · rw [responseData, append_assoc, append_assoc, append_assoc]
    exact sessionIdAt_append _ _ x.initiatorId 8
      (by rw [length_append, x.responderId.toBytes_length]; rfl)
  · rw [responseData, append_assoc, append_assoc]
    exact slice_append
      (by rw [length_append, length_append, x.responderId.toBytes_length,
        x.initiatorId.toBytes_length]; rfl) ephemeral
  · rw [responseData, append_assoc]
    exact slice_append
      (by rw [length_append, length_append, length_append,
        x.responderId.toBytes_length, x.initiatorId.toBytes_length, ephemeral]; rfl) tagSize
  · have key : x.toInitiator.mac1Key =
        (new W (W.publicKey x.initiator.bytes)).mac1Key := x.forInitiator
    rw [key]
    exact verifyMacs_of sane _ size

omit sane in
/-- What the initiator makes of a response: it opens the tag in its own state. -/
theorem complete_eq (response : HandshakeResponse) (psk : Bytes)
    (sender : response.senderId = x.responderId)
    (ephemeral : response.ephemeralPub = W.publicKey x.responderEphemeral.bytes)
    (macs : (new W (W.publicKey x.initiator.bytes)).verifyMacs W response.raw) :
    x.initiation.1.complete W response psk (new W (W.publicKey x.initiator.bytes))
        x.finishedAt =
      ((x.sealing psk).decrypt W response.authTag).map (fun opened =>
        ⟨TransmitSession.new (opened.1.finish W).initiatorToResponder x.responderId x.finishedAt,
          ReceiveSession.new (opened.1.finish W).responderToInitiator x.initiatorId
            x.finishedAt⟩) := by
  rw [SentHandshake.complete, if_neg (not_not.mpr macs), ephemeral, sender]
  change ((x.sealing psk).decrypt W response.authTag >>= _) = _
  cases (x.sealing psk).decrypt W response.authTag with
  | none => rfl
  | some opened => rfl

/-- A psk is told from another by the state it is mixed into. -/
theorem psk_of_sealing {psk other : Secret}
    (cipher : (x.sealing other.bytes).cipher = (x.sealing psk.bytes).cipher)
    (hash : (x.sealing other.bytes).hash = (x.sealing psk.bytes).hash) :
    other.bytes = psk.bytes := by
  apply sane.hkdf x.transcript.chainingKey _ _ other.size psk.size
  have mixed : x.transcript.hash ++ (hkdf3 W x.transcript.chainingKey other.bytes).2.1 =
      x.transcript.hash ++ (hkdf3 W x.transcript.chainingKey psk.bytes).2.1 := sane.hash hash
  exact Prod.ext (append_cancel_left mixed) cipher

/-- A responder that processes the initiation recovers the initiator's static key and timestamp,
and the initiator that finishes on its response with the same psk has the responder's session the
other way round. With another psk it finishes nothing, and its peer state is as before. -/
theorem handshake_agrees
    (sealedOnce : W.OpensOnly (x.sealing x.psk.bytes).cipher (replicate 12 0)
      (x.sealing x.psk.bytes).hash []) :
    ∃ init response,
      parse x.initiationPacket.1 = some (.handshakeInitiation init) ∧
      ReceivedHandshake.new W init x.responderKeys
        (new W (W.publicKey x.responder.bytes)) = some x.received ∧
      x.received.peerStatic = W.publicKey x.initiator.bytes ∧
      x.received.timestamp = x.timestamp ∧
      parse x.response.2 = some (.handshakeResponse response) ∧
      (∀ timeout tentative, ∃ session,
        (x.inFlight timeout tentative).finish W response x.psk.bytes
            (new W (W.publicKey x.initiator.bytes)) x.finishedAt =
          some (⟨none, tentative⟩, session, timeout) ∧
        session.send.key = x.response.1.recv.key ∧ session.send.id = x.response.1.recv.id ∧
        session.recv.key = x.response.1.send.key ∧ session.recv.id = x.response.1.send.id) ∧
      ∀ other : Secret, other.bytes ≠ x.psk.bytes → ∀ timeout tentative,
        (x.inFlight timeout tentative).finish W response other.bytes
          (new W (W.publicKey x.initiator.bytes)) x.finishedAt = none ∧
        ∀ (peer : Peer) (ctx : Ctx), peer.handshake = x.inFlight timeout tentative →
          peer.config.psk = other.bytes →
          ctx.state.myCookie = new W (W.publicKey x.initiator.bytes) →
          peer.recvHandshakeResponse W x.finishedAt response ctx = .ok (peer, ctx) := by
  obtain ⟨init, parsed, sender, ephemeral, static, stamp, macs⟩ := x.initiationPacket_spec sane
  obtain ⟨response, answered, responder, receiver, answerKey, tag, answerMacs⟩ :=
    x.responsePacket_spec sane
  refine ⟨init, response, parsed, x.received_spec sane init sender ephemeral static stamp macs, rfl,
    rfl, answered, fun timeout tentative => ?_, fun other different timeout tentative => ?_⟩
  · have completed := x.complete_eq response x.psk.bytes responder answerKey answerMacs
    rw [tag, (x.sealing x.psk.bytes).decrypt_encrypt sane] at completed
    have finished : (x.inFlight timeout tentative).finish W response x.psk.bytes
        (new W (W.publicKey x.initiator.bytes)) x.finishedAt = some (⟨none, tentative⟩,
          ⟨TransmitSession.new (((x.sealing x.psk.bytes).encrypt W []).1.finish
              W).initiatorToResponder x.responderId x.finishedAt,
            ReceiveSession.new (((x.sealing x.psk.bytes).encrypt W []).1.finish
              W).responderToInitiator x.initiatorId x.finishedAt⟩, timeout) := by
      simp only [Handshake.finish, inFlight, bind_eq_bind, bind_some]
      rw [completed]
      rfl
    rw [x.response_eq sane]
    exact ⟨_, finished, rfl, rfl, rfl, rfl⟩
  · have failed : (x.inFlight timeout tentative).finish W response other.bytes
        (new W (W.publicKey x.initiator.bytes)) x.finishedAt = none := by
      have completed := x.complete_eq response other.bytes responder answerKey answerMacs
      have shut : (x.sealing other.bytes).decrypt W response.authTag = none := by
        rw [tag, KeyedState.decrypt]
        cases opened : W.aeadDecrypt (x.sealing other.bytes).cipher (replicate 12 0)
            (x.sealing other.bytes).hash ((x.sealing x.psk.bytes).encrypt W []).2 with
        | none => rfl
        | some cleartext =>
          obtain ⟨cipher, -, hash⟩ := sealedOnce _ _ _ (isSome_of_eq_some opened)
          exact absurd (x.psk_of_sealing sane cipher hash) different
      rw [shut] at completed
      simp only [Handshake.finish, inFlight, bind_eq_bind, bind_some]
      rw [completed]
      rfl
    refine ⟨failed, fun peer ctx state psk cookie => ?_⟩
    rw [Peer.recvHandshakeResponse, state, psk, cookie, failed]

end Exchange

def tamePad (bytes : Bytes) : Bytes := (bytes ++ replicate 32 0).take 32

/-- A salt and key material added up, byte by byte. -/
def tameMix (salt ikm : Bytes) (offset : UInt8) : Bytes :=
  zipWith (fun a b => a + b + offset) (tamePad salt) (tamePad ikm)

variable (key aad : Bytes)

/-- Primitives in which one sealed text, of an empty plaintext, has a tag of its own. -/
def WgCrypto.tame : WgCrypto :=
  let encrypt (k nonce a plaintext : Bytes) : Bytes :=
    plaintext ++ replicate 16
      (if k = key ∧ nonce = replicate 12 0 ∧ a = aad ∧ plaintext = [] then 1 else 0)
  let decrypt (k nonce a ciphertext : Bytes) : Option Bytes :=
    let plaintext := ciphertext.take (ciphertext.length - 16)
    if encrypt k nonce a plaintext = ciphertext then some plaintext else none
  { blake2s256 := id
    blake2sMac := fun _ _ => replicate 16 7
    hkdf := fun salt ikm size =>
      (tameMix salt ikm 1 ++ (tameMix salt ikm 2 ++ tameMix salt ikm 3)).take size
    publicKey := id
    diffieHellman := fun secret publicKey => zipWith (fun a b => a + b) secret publicKey
    aeadEncrypt := encrypt
    aeadDecrypt := decrypt
    xaeadEncrypt := encrypt
    xaeadDecrypt := decrypt }

theorem tamePad_length (bytes : Bytes) : (tamePad bytes).length = 32 := by
  rw [tamePad, length_take, length_append, length_replicate]
  omega

theorem tameMix_length {salt ikm : Bytes} (offset : UInt8) :
    (tameMix salt ikm offset).length = 32 := by
  rw [tameMix, length_zipWith, tamePad_length, tamePad_length, Nat.min_self]

theorem tameMix_injective {salt first second : Bytes} (offset : UInt8)
    (firstSize : first.length = 32) (secondSize : second.length = 32)
      (same : tameMix salt first offset = tameMix salt second offset) :
    first = second := by
  have padded (bytes : Bytes) (size : bytes.length = 32) : tamePad bytes = bytes :=
    take_left' size
  rw [tameMix, tameMix, padded first firstSize, padded second secondSize] at same
  apply ext_getElem (firstSize.trans secondSize.symm)
  intro i inFirst inSecond
  have inSalt : i < (tamePad salt).length := by rw [tamePad_length, ← firstSize]; exact inFirst
  have bytes := congrArg (fun list => list[i]?) same
  simp only [getElem?_zipWith, getElem?_eq_getElem inSalt,
    getElem?_eq_getElem inFirst, getElem?_eq_getElem inSecond, some.injEq] at bytes
  exact (UInt8.add_right_inj _).mp ((UInt8.add_left_inj offset).mp bytes)

theorem tame_hkdf3 (key aad salt ikm : Bytes) :
    (hkdf3 (tame key aad) salt ikm).2.2 = tameMix salt ikm 3 := by
  have all : (tameMix salt ikm 1 ++ (tameMix salt ikm 2 ++ tameMix salt ikm 3)).take 96 =
      tameMix salt ikm 1 ++ tameMix salt ikm 2 ++ (tameMix salt ikm 3 ++ []) := by
    rw [append_nil, append_assoc]
    apply take_of_length_le
    simp only [length_append, tameMix_length]
    exact Nat.le_refl 96
  rw [hkdf3, tame]
  dsimp only
  rw [all]
  refine slice_append ?_ (tameMix_length 3)
  rw [length_append, tameMix_length, tameMix_length]

theorem tame_sane : (tame key aad).Sane where
  commutes a b := zipWith_comm_of_comm (fun x y => UInt8.add_comm x y)
  opens k nonce a plaintext := by simp [tame]
  hash := Function.injective_id
  hkdf chainingKey psk other pskSize otherSize same := by
    have last := congrArg Prod.snd same
    rw [tame_hkdf3, tame_hkdf3] at last
    exact tameMix_injective 3 pskSize otherSize last
  publicSize _ size := size
  sealedSize k nonce a plaintext := by simp [tame]
  macSize _ _ := length_replicate

theorem tame_opensOnly : (tame key aad).OpensOnly key (replicate 12 0) aad [] := by
  intro otherKey otherNonce otherAad opened
  simpa [tame] using opened

def toySecret (byte : UInt8) : Secret := ⟨replicate 32 byte, length_replicate⟩

def toyExchange : Exchange (tame key aad) where
  initiator := toySecret 10
  responder := toySecret 20
  initiatorEphemeral := toySecret 9
  responderEphemeral := toySecret 8
  psk := toySecret 5
  timestamp := ⟨4611686020127387914, 16777216⟩
  initiatorId := ⟨101⟩
  responderId := ⟨201⟩
  toResponder := MacSender.new (tame key aad) (replicate 32 20)
  toInitiator := MacSender.new (tame key aad) (replicate 32 10)
  forResponder := rfl
  forInitiator := rfl
  initiatedAt := 0
  respondedAt := Time.fromSecs 1
  finishedAt := Time.fromSecs 2

/-- The key and the transcript that the toy response is sealed with. -/
def toySealing : KeyedState := (toyExchange [] []).sealing (replicate 32 5)

/-- In a toy exchange the sessions agree, their two directions differ, and another psk is
refused. -/
theorem handshake_agrees_toyExchange :
    let W := tame toySealing.cipher toySealing.hash
    let x := toyExchange toySealing.cipher toySealing.hash
    let macs := new W (replicate 32 10)
    (∃ response, parse x.response.2 = some (.handshakeResponse response) ∧
      (∃ session, (x.inFlight ⟨0⟩ none).finish W response (toySecret 5).bytes macs x.finishedAt =
          some (Handshake.none, session, ⟨0⟩) ∧
        session.send.key = x.response.1.recv.key ∧ session.recv.key = x.response.1.send.key) ∧
      (x.inFlight ⟨0⟩ none).finish W response (toySecret 6).bytes macs x.finishedAt = none) ∧
    x.response.1.send.key ≠ x.response.1.recv.key := by
  have cipher : ((toyExchange toySealing.cipher toySealing.hash).sealing
      (replicate 32 5)).cipher = toySealing.cipher := by decide +kernel
  have hash : ((toyExchange toySealing.cipher toySealing.hash).sealing
      (replicate 32 5)).hash = toySealing.hash := by decide +kernel
  constructor
  · have sealedOnce := tame_opensOnly toySealing.cipher toySealing.hash
    obtain ⟨init, response, -, -, -, -, answered, agreed, refused⟩ :=
      (toyExchange toySealing.cipher toySealing.hash).handshake_agrees
        (tame_sane toySealing.cipher toySealing.hash)
        (cipher.symm ▸ hash.symm ▸ sealedOnce)
    obtain ⟨session, finished, send, -, recv, -⟩ := agreed ⟨0⟩ none
    exact ⟨response, answered, ⟨session, finished, send, recv⟩,
      (refused (toySecret 6) (by decide) ⟨0⟩ none).1⟩
  · decide +kernel

end TailscaleRs.Tunnel
