import TailscaleRs.Lib.BigEndian
import TailscaleRs.Time.Scheduler

namespace TailscaleRs.Tunnel

/-- The third-party primitives: BLAKE2s-256, keyed BLAKE2s-128, HKDF over BLAKE2s, X25519,
ChaCha20-Poly1305 and XChaCha20-Poly1305. -/
structure WgCrypto where
  blake2s256 : Bytes → Bytes
  blake2sMac : (key data : Bytes) → Bytes
  hkdf : (salt ikm : Bytes) → (size : Nat) → Bytes
  publicKey : (secret : Bytes) → Bytes
  diffieHellman : (secret publicKey : Bytes) → Bytes
  aeadEncrypt : (key nonce aad plaintext : Bytes) → Bytes
  aeadDecrypt : (key nonce aad ciphertext : Bytes) → Option Bytes
  xaeadEncrypt : (key nonce aad plaintext : Bytes) → Bytes
  xaeadDecrypt : (key nonce aad ciphertext : Bytes) → Option Bytes

/-- Why a call does not return: a panic at one of the source's sites, or a random
source that never yields an unused session id. -/
inductive Halt where
  | nodekeyCollision
  | removeSession
  | removePeer
  | initiationInFlight
  | sessionJustActivated
  | wrongReceiver
  | unexpectedInitiation
  | replaySet
  | starved
  deriving DecidableEq, Repr

structure SessionId where
  val : UInt32
  deriving DecidableEq, Repr

structure PeerId where
  val : UInt32
  deriving DecidableEq, Repr

def littleEndian (width n : Nat) : Bytes := (BigEndian.toBytes width n).reverse

variable (bytes : Bytes)

def ofLittleEndian : Nat := BigEndian.ofBytes bytes.reverse

def slice (start size : Nat) : Bytes := (bytes.drop start).take size

def SessionId.toBytes (id : SessionId) : Bytes := littleEndian 4 id.val.toNat

def sessionIdAt (start : Nat) : SessionId :=
  ⟨UInt32.ofNat (ofLittleEndian (slice bytes start 4))⟩

/-- A message is a view of the bytes of a packet. -/
structure HandshakeInitiation where
  raw : Bytes
  size : raw.length = 148

structure HandshakeResponse where
  raw : Bytes
  size : raw.length = 92

structure CookieReply where
  raw : Bytes
  size : raw.length = 64

structure TransportDataHeader where
  raw : Bytes
  size : 16 ≤ raw.length

namespace HandshakeInitiation

variable (pkt : HandshakeInitiation)

def senderId : SessionId := sessionIdAt pkt.raw 4
def ephemeralPub : Bytes := slice pkt.raw 8 32
def staticPubSealed : Bytes := slice pkt.raw 40 48
def timestampSealed : Bytes := slice pkt.raw 88 28

end HandshakeInitiation

namespace HandshakeResponse

variable (pkt : HandshakeResponse)

def senderId : SessionId := sessionIdAt pkt.raw 4
def receiverId : SessionId := sessionIdAt pkt.raw 8
def ephemeralPub : Bytes := slice pkt.raw 12 32
def authTag : Bytes := slice pkt.raw 44 16

end HandshakeResponse

namespace CookieReply

variable (pkt : CookieReply)

def receiverId : SessionId := sessionIdAt pkt.raw 4
def nonce : Bytes := slice pkt.raw 8 24
def cookieSealed : Bytes := slice pkt.raw 32 32

end CookieReply

namespace TransportDataHeader

/-- `try_ref_from_prefix`: any message type and sixteen bytes. -/
def ofPrefix (raw : Bytes) : Option TransportDataHeader :=
  match raw.head? with
  | none => none
  | some msgType =>
    if 1 ≤ msgType ∧ msgType ≤ 4 then if size : 16 ≤ raw.length then some ⟨raw, size⟩ else none
    else none

variable (pkt : TransportDataHeader)

def receiverId : SessionId := sessionIdAt pkt.raw 4
def nonce : UInt64 := UInt64.ofNat (ofLittleEndian (slice pkt.raw 8 8))

end TransportDataHeader

inductive Message where
  | handshakeInitiation (pkt : HandshakeInitiation)
  | handshakeResponse (pkt : HandshakeResponse)
  | cookieReply (pkt : CookieReply)
  | transportData (pkt : TransportDataHeader)

/-- The first byte names the type; transport data is a header followed by anything, the
other messages have a fixed size. -/
def Message.parse (raw : Bytes) : Option Message :=
  match raw.head? with
  | none => none
  | some msgType =>
    if msgType = 1 then
      if size : raw.length = 148 then some (.handshakeInitiation ⟨raw, size⟩) else none
    else if msgType = 2 then
      if size : raw.length = 92 then some (.handshakeResponse ⟨raw, size⟩) else none
    else if msgType = 3 then
      if size : raw.length = 64 then some (.cookieReply ⟨raw, size⟩) else none
    else if msgType = 4 then
      if size : 16 ≤ raw.length then some (.transportData ⟨raw, size⟩) else none
    else none

def Message.receiverId : Message → Option SessionId
  | .handshakeInitiation _ => none
  | .handshakeResponse pkt => some pkt.receiverId
  | .cookieReply pkt => some pkt.receiverId
  | .transportData pkt => some pkt.receiverId

structure ReplayWindow where
  last : UInt64
  blocks : List UInt64

namespace ReplayWindow

def nBlocks : Nat := 128
def windowSize : UInt64 := 8128

def default : ReplayWindow := ⟨0, List.replicate nBlocks 0⟩

variable (w : ReplayWindow)

def smallestValid : UInt64 :=
  if windowSize ≤ w.last then w.last - windowSize else 0

variable (counter : UInt64)

def blockIdxUnbounded : UInt64 := counter >>> 6

def blockIdx : Nat := (blockIdxUnbounded counter &&& 127).toNat

def bitMask : UInt64 := 1 <<< (counter &&& 63)

def check : Bool :=
  if w.last < counter then true
  else if counter < w.smallestValid then false
  else w.blocks.getD (blockIdx counter) 0 &&& bitMask counter = 0

/-- The blocks the head moves over are cleared, the whole ring if it moves far. -/
def advance : ReplayWindow :=
  let cur := blockIdxUnbounded w.last
  let new := blockIdxUnbounded counter
  let delta := (new - cur).toNat
  let blocks :=
    if nBlocks ≤ delta then List.replicate nBlocks 0
    else (List.range delta).foldl
      (fun blocks i => blocks.set ((cur + UInt64.ofNat i + 1) &&& 127).toNat 0) w.blocks
  ⟨counter, blocks⟩

def set : Except Halt ReplayWindow :=
  if counter < w.smallestValid then .error .replaySet
  else
    let w := if w.last < counter then w.advance counter else w
    let block := w.blocks.getD (blockIdx counter) 0
    if block &&& bitMask counter ≠ 0 then .error .replaySet
    else .ok { w with blocks := w.blocks.set (blockIdx counter) (block ||| bitMask counter) }

end ReplayWindow

end TailscaleRs.Tunnel
