import TailscaleRs.Tunnel.Session

namespace TailscaleRs.Tunnel

open Time (Instant Duration)

def cookieRotationTime : Duration := Time.fromSecs 120

def mac1Label : Bytes := "mac1----".toUTF8.toList
def mac2Label : Bytes := "cookie--".toUTF8.toList

section

variable (W : WgCrypto)

def mac1Key (key : Bytes) : Bytes := W.blake2s256 (mac1Label ++ key)

def mac2Key (key : Bytes) : Bytes := W.blake2s256 (mac2Label ++ key)

structure Mac2Cookie where
  key : Bytes
  expiry : Instant

structure MacSender where
  mac1Key : Bytes
  mac2Key : Bytes
  cookie : Option Mac2Cookie

def MacSender.new (peerKey : Bytes) : MacSender :=
  ⟨Tunnel.mac1Key W peerKey, Tunnel.mac2Key W peerKey, none⟩

/-- The packet with its last 32 bytes set to the two MACs, and the first of them. -/
def MacSender.writeMacs (sender : MacSender) (now : Instant) (pkt : Bytes) : Bytes × Bytes :=
  let data := pkt.take (pkt.length - 32)
  let mac1 := W.blake2sMac sender.mac1Key data
  let mac2 := match sender.cookie with
    | some cookie =>
      if now < cookie.expiry then W.blake2sMac cookie.key (data ++ mac1)
      else List.replicate 16 0
    | none => List.replicate 16 0
  (data ++ mac1 ++ mac2, mac1)

/-- A cookie reply that does not open is ignored. -/
def MacSender.receiveCookie (sender : MacSender) (now : Instant) (reply : CookieReply)
    (handshakeMac : Bytes) : MacSender :=
  match W.xaeadDecrypt sender.mac2Key reply.nonce handshakeMac reply.cookieSealed with
  | none => sender
  | some cookie => { sender with cookie := some ⟨cookie, now + cookieRotationTime⟩ }

structure MacReceiver where
  mac1Key : Bytes

def MacReceiver.new (myKey : Bytes) : MacReceiver := ⟨Tunnel.mac1Key W myKey⟩

/-- Only the first MAC is checked here. -/
def MacReceiver.verifyMacs (receiver : MacReceiver) (pkt : Bytes) : Bool :=
  32 ≤ pkt.length &&
    W.blake2sMac receiver.mac1Key (pkt.take (pkt.length - 32)) = slice pkt (pkt.length - 32) 16

structure CookieSecret where
  value : Bytes
  setAt : Instant

/-- The responder half of the cookie mechanism; no secret until the first reply. -/
structure CookieGenerator where
  encryptionKey : Bytes
  secret : Option CookieSecret

def CookieGenerator.new (myKey : Bytes) : CookieGenerator := ⟨mac2Key W myKey, none⟩

variable (generator : CookieGenerator)

/-- The cookie for a binding; an unset or old secret is drawn anew. -/
def CookieGenerator.cookie (binding : Bytes) (now : Instant) (drawn : Bytes) :
    CookieGenerator × Bytes :=
  let secret := match generator.secret with
    | some secret => if now - secret.setAt ≤ cookieRotationTime then secret else ⟨drawn, now⟩
    | none => ⟨drawn, now⟩
  ({ generator with secret := some secret }, W.blake2sMac secret.value binding)

/-- The reply that answers an initiation, bound to the initiation's first MAC. -/
def CookieGenerator.createReply (msg : HandshakeInitiation) (binding : Bytes) (now : Instant)
    (drawn nonce : Bytes) : CookieGenerator × Bytes :=
  let mac1 := slice msg.raw 116 16
  let (generator, cookie) := generator.cookie W binding now drawn
  let sealed := W.xaeadEncrypt generator.encryptionKey nonce mac1 cookie
  (generator, [3, 0, 0, 0] ++ msg.senderId.toBytes ++ nonce ++ sealed)

def CookieGenerator.checkMac2 (msg : Bytes) (binding : Bytes) (now : Instant) : Bool :=
  match generator.secret with
  | none => false
  | some secret =>
    if cookieRotationTime < now - secret.setAt then false
    else if msg.length < 16 then false
    else
      let cookie := W.blake2sMac secret.value binding
      W.blake2sMac cookie (msg.take (msg.length - 16)) = slice msg (msg.length - 16) 16

end

/-- A TAI64N timestamp, ordered by seconds and then nanoseconds. -/
structure Tai64n where
  secs : UInt64
  nanos : UInt32
  deriving DecidableEq, Repr

namespace Tai64n

def taiBase : UInt64 := 0x400000000000000a
def whitenMask : UInt32 := 0xff000000
def whitenIncrement : UInt32 := 0x1000000

def zeroed : Tai64n := ⟨0, 0⟩

def le (a b : Tai64n) : Bool := a.secs < b.secs || (a.secs = b.secs && a.nanos ≤ b.nanos)

/-- This timestamp if it is later than `min`, and otherwise one shortly after `min`. -/
def clampAfter (t min : Tai64n) : Tai64n :=
  if ¬t.le min then t
  else
    let nanos := min.nanos + whitenIncrement
    let carry := nanos < min.nanos
    ⟨if carry then min.secs + 1 else min.secs, nanos &&& whitenMask⟩

/-- `From<SystemTime>`, for a wall clock in nanoseconds relative to the Unix epoch. -/
def ofSystemTime (wall : Int) : Tai64n :=
  let secs := wall / 1000000000
  let nanos := wall % 1000000000
  ⟨if 0 ≤ secs then taiBase + UInt64.ofNat secs.toNat
    else taiBase - UInt64.ofNat (-secs).toNat, UInt32.ofNat nanos.toNat &&& whitenMask⟩

def toBytes (t : Tai64n) : Bytes :=
  BigEndian.toBytes 8 t.secs.toNat ++ BigEndian.toBytes 4 t.nanos.toNat

def ofBytes (bytes : Bytes) : Tai64n :=
  ⟨UInt64.ofNat (BigEndian.ofBytes (bytes.take 8)),
    UInt32.ofNat (BigEndian.ofBytes (bytes.drop 8))⟩

end Tai64n

structure Tai64nClock where
  last : Tai64n

def Tai64nClock.new : Tai64nClock := ⟨Tai64n.zeroed⟩

def Tai64nClock.now (clock : Tai64nClock) (wall : Int) : Tai64nClock × Tai64n :=
  let stamp := (Tai64n.ofSystemTime wall).clampAfter clock.last
  (⟨stamp⟩, stamp)

open Time (Instant Duration Handle)

structure SessionKeys where
  initiatorToResponder : Bytes
  responderToInitiator : Bytes

structure HandshakeState where
  hash : Bytes
  chainingKey : Bytes

/-- A handshake state whose single-use cipher is armed. -/
structure KeyedState extends HandshakeState where
  cipher : Bytes

section

variable (W : WgCrypto) (chainingKey key : Bytes)

def hkdf2 : Bytes × Bytes :=
  let expanded := W.hkdf chainingKey key 64
  (slice expanded 0 32, slice expanded 32 32)

def hkdf3 : Bytes × Bytes × Bytes :=
  let expanded := W.hkdf chainingKey key 96
  (slice expanded 0 32, slice expanded 32 32, slice expanded 64 32)

namespace HandshakeState

variable (s : HandshakeState)

def mixHash (data : Bytes) : HandshakeState :=
  { s with hash := W.blake2s256 (s.hash ++ data) }

def new (responderStatic : Bytes) : HandshakeState :=
  let init := W.blake2s256 "Noise_IKpsk2_25519_ChaChaPoly_BLAKE2s".toUTF8.toList
  (((⟨init, init⟩ : HandshakeState).mixHash W
    "WireGuard v1 zx2c4 Jason@zx2c4.com".toUTF8.toList).mixHash W responderStatic)

def mixKey (key : Bytes) : KeyedState :=
  let (chainingKey, k) := hkdf2 W s.chainingKey key
  ⟨⟨s.hash, chainingKey⟩, k⟩

def mixPsk (psk : Bytes) : KeyedState :=
  let (chainingKey, h, k) := hkdf3 W s.chainingKey psk
  ⟨(⟨s.hash, chainingKey⟩ : HandshakeState).mixHash W h, k⟩

def finish : SessionKeys :=
  let (k1, k2) := hkdf2 W s.chainingKey []
  ⟨k1, k2⟩

end HandshakeState

namespace KeyedState

/-- The sealed text, and the state with it mixed in; the cipher is spent. -/
def encrypt (s : KeyedState) (cleartext : Bytes) : HandshakeState × Bytes :=
  let sealed := W.aeadEncrypt s.cipher (List.replicate 12 0) s.hash cleartext
  (s.toHandshakeState.mixHash W sealed, sealed)

def decrypt (s : KeyedState) (ciphertext : Bytes) : Option (HandshakeState × Bytes) := do
  let cleartext ← W.aeadDecrypt s.cipher (List.replicate 12 0) s.hash ciphertext
  return (s.toHandshakeState.mixHash W ciphertext, cleartext)

end KeyedState

structure NodeKeyPair where
  secret : Bytes
  publicKey : Bytes

structure ReceivedHandshake where
  sendId : SessionId
  peerEphemeral : Bytes
  peerStatic : Bytes
  timestamp : Tai64n
  handshake : HandshakeState

def ReceivedHandshake.new (pkt : HandshakeInitiation) (myStatic : NodeKeyPair)
    (macs : MacReceiver) : Option ReceivedHandshake := do
  if ¬macs.verifyMacs W pkt.raw then none
  else
    let keyed := (((HandshakeState.new W myStatic.publicKey).mixHash W pkt.ephemeralPub).mixKey W
      pkt.ephemeralPub).mixKey W (W.diffieHellman myStatic.secret pkt.ephemeralPub)
    let (handshake, peerStatic) ← keyed.decrypt W pkt.staticPubSealed
    let keyed := handshake.mixKey W (W.diffieHellman myStatic.secret peerStatic)
    let (handshake, stamp) ← keyed.decrypt W pkt.timestampSealed
    return ⟨pkt.senderId, pkt.ephemeralPub, peerStatic, Tai64n.ofBytes stamp, handshake⟩

structure SessionPair where
  send : TransmitSession
  recv : ReceiveSession

/-- The response to an initiation and the session it establishes for the responder. -/
def ReceivedHandshake.respond (received : ReceivedHandshake) (sessionId : SessionId) (psk : Bytes)
    (macs : MacSender) (now : Instant) (myEphemeral : Bytes) : SessionPair × Bytes :=
  let ephemeralPub := W.publicKey myEphemeral
  let keyed := ((((received.handshake.mixHash W ephemeralPub).mixKey W ephemeralPub).mixKey W
    (W.diffieHellman myEphemeral received.peerEphemeral)).mixKey W
    (W.diffieHellman myEphemeral received.peerStatic)).mixPsk W psk
  let (handshake, authTag) := keyed.encrypt W []
  let keys := handshake.finish W
  let unsigned := [2, 0, 0, 0] ++ sessionId.toBytes ++ received.sendId.toBytes ++ ephemeralPub ++
    authTag ++ List.replicate 32 0
  (⟨TransmitSession.new keys.responderToInitiator received.sendId now,
    ReceiveSession.new keys.initiatorToResponder sessionId now⟩, (macs.writeMacs W now unsigned).1)

structure SentHandshake where
  id : SessionId
  myEphemeral : Bytes
  myStatic : Bytes
  handshake : HandshakeState

/-- A handshake initiation, its MACs still blank. -/
def initiateHandshake (endpointStatic peerStatic : Bytes) (sessionId : SessionId)
    (timestamp : Tai64n) (ephemeral : Bytes) : SentHandshake × Bytes :=
  let ephemeralPub := W.publicKey ephemeral
  let keyed := (((HandshakeState.new W peerStatic).mixHash W ephemeralPub).mixKey W
    ephemeralPub).mixKey W (W.diffieHellman ephemeral peerStatic)
  let (handshake, staticPubSealed) := keyed.encrypt W (W.publicKey endpointStatic)
  let keyed := handshake.mixKey W (W.diffieHellman endpointStatic peerStatic)
  let (handshake, timestampSealed) := keyed.encrypt W timestamp.toBytes
  (⟨sessionId, ephemeral, endpointStatic, handshake⟩,
    [1, 0, 0, 0] ++ sessionId.toBytes ++ ephemeralPub ++ staticPubSealed ++ timestampSealed ++
      List.replicate 32 0)

/-- The session a valid response to our initiation establishes. -/
def SentHandshake.complete (sent : SentHandshake) (packet : HandshakeResponse) (psk : Bytes)
    (cookies : MacReceiver) (now : Instant) : Option SessionPair := do
  if ¬cookies.verifyMacs W packet.raw then none
  else
    let keyed := ((((sent.handshake.mixHash W packet.ephemeralPub).mixKey W
      packet.ephemeralPub).mixKey W (W.diffieHellman sent.myEphemeral packet.ephemeralPub)).mixKey W
      (W.diffieHellman sent.myStatic packet.ephemeralPub)).mixPsk W psk
    let (handshake, _) ← keyed.decrypt W packet.authTag
    let keys := handshake.finish W
    return ⟨TransmitSession.new keys.initiatorToResponder packet.senderId now,
      ReceiveSession.new keys.responderToInitiator sent.id now⟩

end

structure Initiation where
  sent : SentHandshake
  timeout : Handle
  mac1 : Bytes

/-- Both roles are tracked at once: an initiation in flight, and a tentative session we
responded with that awaits its first transport message. -/
structure Handshake where
  initiated : Option Initiation
  responded : Option SessionPair

namespace Handshake

def none : Handshake := ⟨.none, .none⟩

variable (h : Handshake)

def isActive : Bool := h.initiated.isSome

def initiatedSessionId : Option SessionId := h.initiated.map (fun i => i.sent.id)

def respondedSessionId : Option SessionId := h.responded.map (fun t => t.recv.id)

def mac1 : Option Bytes := h.initiated.map Initiation.mac1

/-- The receive session that awaits its first transport message. -/
def recvs : List ReceiveSession := (h.responded.map SessionPair.recv).toList

/-- The caller is to run this with no initiation in flight, which only debug builds
check. -/
def setInitiated (debug : Bool) (h : Handshake) (initiation : Initiation) : Except Halt Handshake :=
  if debug && h.initiated.isSome then .error .initiationInFlight
  else .ok { h with initiated := some initiation }

variable (W : WgCrypto) (h : Handshake)

/-- Responding never touches the initiator role. Also returned are the response and the id
of a displaced tentative session, which the caller is to free. -/
def respond (sessionId : SessionId) (received : ReceivedHandshake) (psk : Bytes)
    (cookieSender : MacSender) (now : Instant) (myEphemeral : Bytes) :
    Handshake × Bytes × Option SessionId :=
  let (session, packet) := received.respond W sessionId psk cookieSender now myEphemeral
  ({ h with responded := some session }, packet, h.respondedSessionId)

/-- A valid response consumes the initiation; the caller cancels its timer. -/
def finish (packet : HandshakeResponse) (psk : Bytes) (cookies : MacReceiver) (now : Instant) :
    Option (Handshake × SessionPair × Handle) := do
  let initiation ← h.initiated
  let session ← initiation.sent.complete W packet psk cookies now
  return ({ h with initiated := .none }, session, initiation.timeout)

/-- A transport message that decrypts confirms the tentative session; an expired one
stays in its slot, which owns an id. -/
def confirm (debug : Bool) (h : Handshake) (sessionId : SessionId) (packets : List Bytes)
    (now : Instant) : Except Halt (Handshake × Option (SessionPair × List Opened)) :=
  match h.responded with
  | .none => .ok (h, .none)
  | some tentative =>
    if tentative.recv.id ≠ sessionId then .ok (h, .none)
    else if tentative.recv.expired now then .ok (h, .none)
    else do
      let (recv, opened) ← tentative.recv.decrypt W debug packets
      let tentative := { tentative with recv := recv }
      if opened = [] then return ({ h with responded := some tentative }, .none)
      else return ({ h with responded := .none }, some (tentative, opened))

end Handshake

end TailscaleRs.Tunnel
