import TailscaleRs.Tunnel.Types

namespace TailscaleRs.Tunnel

open List
open Time (Instant Duration)
open UInt64 (ofNat toNat_ofNat_of_lt')

def rekeyAfterTime : Duration := Time.fromSecs 120
def rejectAfterTime : Duration := Time.fromSecs 180
def rekeyAfterTimeReceiving : Duration := Time.fromSecs 165
def rejectAfterTimeRecv : Duration := rejectAfterTime
def rejectAfterMessages : Nat := 2 ^ 64 - 1 - 2 ^ 13
def rekeyAfterMessages : Nat := 2 ^ 60
def paddingMultiple : Nat := 16

/-- The zero bytes that round a payload up to the padding multiple. -/
def paddingSize (len : Nat) : Nat :=
  (len + paddingMultiple - 1) / paddingMultiple * paddingMultiple - len

/-- The AEAD nonce of a counter: four zero bytes and the counter. -/
def nonceBytes (counter : UInt64) : Bytes := replicate 4 0 ++ littleEndian 8 counter.toNat

/-- Established session that can only send; `nonce` is the next counter to issue. -/
structure TransmitSession where
  key : Bytes
  nonce : UInt64
  id : SessionId
  created : Instant

namespace TransmitSession

def new (key : Bytes) (id : SessionId) (now : Instant) : TransmitSession := ⟨key, 0, id, now⟩

/-- `checked_add` clamped at the top of the range. -/
def batchEnd (nonce : UInt64) (num : Nat) : UInt64 :=
  if nonce.toNat + num < 2 ^ 64 then ofNat (nonce.toNat + num) else ofNat (2 ^ 64 - 1)

variable (W : WgCrypto) (session : TransmitSession)

def frame (counter : UInt64) (packet : Bytes) : Bytes :=
  let padded := packet ++ replicate (paddingSize packet.length) 0
  [4, 0, 0, 0] ++ session.id.toBytes ++ littleEndian 8 counter.toNat ++
    W.aeadEncrypt session.key (nonceBytes counter) [] padded

/-- Packets are paired with counters from the reserved batch; packets past its end are
left as they are. -/
def encryptFrom (W : WgCrypto) (session : TransmitSession) (stop : UInt64) :
    UInt64 → List Bytes → List Bytes
  | _, [] => []
  | cur, packet :: rest =>
    if cur = stop then packet :: rest
    else session.frame W cur packet :: session.encryptFrom W stop (cur + 1) rest

def encrypt (packets : List Bytes) : TransmitSession × List Bytes :=
  let stop := batchEnd session.nonce packets.length
  ({ session with nonce := stop }, session.encryptFrom W stop session.nonce packets)

variable (now : Instant)

def stale : Bool :=
  rekeyAfterTime < now - session.created || rekeyAfterMessages ≤ session.nonce.toNat

def expired : Bool :=
  rejectAfterTime < now - session.created || rejectAfterMessages ≤ session.nonce.toNat

def needsReceiveRekey : Bool :=
  rekeyAfterTimeReceiving < now - session.created

section Nonces

def nonceIter (cur stop : UInt64) : List UInt64 :=
  (range' cur.toNat (stop.toNat - cur.toNat)).map ofNat

variable (packets : List Bytes)

def nonces : List UInt64 :=
  nonceIter session.nonce (batchEnd session.nonce packets.length)

theorem batchEnd_toNat (nonce : UInt64) (num : Nat) :
    (batchEnd nonce num).toNat = min (nonce.toNat + num) (2 ^ 64 - 1) := by
  rw [batchEnd]
  split
  · rw [toNat_ofNat_of_lt' ‹_›]
    omega
  · rw [toNat_ofNat_of_lt' (by decide)]
    omega

variable {cur stop : UInt64}

theorem toNat_next (before : cur.toNat < stop.toNat) : (cur + 1).toNat = cur.toNat + 1 := by
  have top := stop.toNat_lt
  rw [UInt64.toNat_add]
  exact Nat.mod_eq_of_lt (Nat.lt_of_le_of_lt before top)

theorem nonceIter_next (before : cur.toNat < stop.toNat) :
    nonceIter cur stop = cur :: nonceIter (cur + 1) stop := by
  have next := toNat_next before
  have count : stop.toNat - cur.toNat = stop.toNat - (cur + 1).toNat + 1 := by omega
  rw [nonceIter, nonceIter, count, range'_succ, map_cons, UInt64.ofNat_toNat, next]

theorem encryptFrom_eq (packets : List Bytes) (order : cur.toNat ≤ stop.toNat) :
    session.encryptFrom W stop cur packets =
      zipWith (session.frame W) (nonceIter cur stop) packets ++
        packets.drop (nonceIter cur stop).length := by
  induction packets generalizing cur with
  | nil => simp [encryptFrom]
  | cons packet rest ih =>
    rw [encryptFrom]
    by_cases ended : cur = stop
    · simp [ended, nonceIter]
    · have before : cur.toNat < stop.toNat :=
        Nat.lt_of_le_of_ne order fun same => ended (UInt64.toNat_inj.mp same)
      rw [if_neg ended, nonceIter_next before, ih (by rw [toNat_next before]; exact before)]
      rfl

/-- The packets of a batch are sealed under the nonces reserved for it, as far as these go. -/
theorem encrypt_eq :
    (session.encrypt W packets).2 =
      zipWith (session.frame W) (session.nonces packets) packets ++
        packets.drop (session.nonces packets).length := by
  have top := session.nonce.toNat_lt
  apply encryptFrom_eq
  rw [batchEnd_toNat]
  omega

theorem length_nonces :
    (session.nonces packets).length = min packets.length (2 ^ 64 - 1 - session.nonce.toNat) := by
  rw [nonces, nonceIter, length_map, length_range', batchEnd_toNat]
  omega

theorem mem_nonceIter {cur stop nonce : UInt64} :
    nonce ∈ nonceIter cur stop ↔ cur ≤ nonce ∧ nonce < stop := by
  have top := stop.toNat_lt
  rw [nonceIter, mem_map, UInt64.le_iff_toNat_le, UInt64.lt_iff_toNat_lt]
  constructor
  · rintro ⟨value, member, rfl⟩
    rw [mem_range'_1] at member
    rw [toNat_ofNat_of_lt' (show value < 2 ^ 64 by omega)]
    omega
  · intro range
    exact ⟨nonce.toNat, mem_range'_1.mpr (by omega), UInt64.ofNat_toNat⟩

theorem nonceIter_increasing (cur stop : UInt64) : (nonceIter cur stop).Pairwise (· < ·) := by
  have top := stop.toNat_lt
  apply pairwise_map.mpr
  apply List.Pairwise.imp_of_mem _ pairwise_lt_range'
  intro first second member member' order
  rw [mem_range'_1] at member member'
  rw [UInt64.lt_iff_toNat_lt, toNat_ofNat_of_lt' (show first < 2 ^ 64 by omega),
    toNat_ofNat_of_lt' (show second < 2 ^ 64 by omega)]
  exact order

/-- Every packet of a batch is sealed, and below the message ceiling, exactly if the batch is
empty or the session has a nonce below the ceiling for each of its packets. The check that the
session makes before a batch asks for one such nonce. -/
theorem encrypt_below_ceiling_iff (W : WgCrypto) (session : TransmitSession)
    (packets : List Bytes) :
    ((session.encrypt W packets).2 = zipWith (session.frame W) (session.nonces packets) packets ∧
      ∀ nonce ∈ session.nonces packets, nonce.toNat < rejectAfterMessages) ↔
    packets = [] ∨ session.nonce.toNat + packets.length ≤ rejectAfterMessages := by
  have ceiling : rejectAfterMessages < 2 ^ 64 - 1 := by decide
  have top := session.nonce.toNat_lt
  have count := length_nonces session packets
  have stops := batchEnd_toNat session.nonce packets.length
  rw [encrypt_eq, append_right_eq_self, drop_eq_nil_iff]
  constructor
  · rintro ⟨all, below⟩
    rcases Nat.eq_zero_or_pos packets.length with empty | positive
    · exact .inl (length_eq_zero_iff.mp empty)
    · -- the last nonce of the batch
      have value : (ofNat (session.nonce.toNat + packets.length - 1)).toNat =
          session.nonce.toNat + packets.length - 1 :=
        toNat_ofNat_of_lt' (show _ < 2 ^ 64 by omega)
      have last := below (ofNat (session.nonce.toNat + packets.length - 1)) (by
        rw [nonces, mem_nonceIter, UInt64.le_iff_toNat_le, UInt64.lt_iff_toNat_lt, value, stops]
        omega)
      omega
  · rintro (rfl | fits)
    · simp_all [nonces]
    · refine ⟨by omega, fun nonce member => ?_⟩
      have range := mem_nonceIter.mp member
      rw [UInt64.lt_iff_toNat_lt, stops] at range
      omega

/-- One nonce below the ceiling is left for a batch of two. -/
theorem encrypt_above_ceiling :
    let session : TransmitSession := ⟨[], ofNat (rejectAfterMessages - 1), ⟨0⟩, 0⟩
    session.expired 0 = false ∧
      ∃ nonce ∈ session.nonces [[], []], rejectAfterMessages ≤ nonce.toNat := by
  refine ⟨by decide, ofNat rejectAfterMessages, by decide, by decide⟩

def noncesOf (W : WgCrypto) : TransmitSession → List (List Bytes) → List UInt64
  | _, [] => []
  | session, packets :: rest =>
    session.nonces packets ++ noncesOf W (session.encrypt W packets).1 rest

theorem noncesOf_increasing {batches : List (List Bytes)} :
    (∀ nonce ∈ session.noncesOf W batches, session.nonce ≤ nonce) ∧
      (session.noncesOf W batches).Pairwise (· < ·) := by
  induction batches generalizing session with
  | nil => exact ⟨fun _ member => absurd member not_mem_nil, .nil⟩
  | cons packets rest ih =>
    obtain ⟨later, increasing⟩ := ih (session.encrypt W packets).1
    have top := session.nonce.toNat_lt
    have order : session.nonce ≤ batchEnd session.nonce packets.length := by
      rw [UInt64.le_iff_toNat_le, batchEnd_toNat]
      omega
    constructor
    · intro nonce member
      rcases mem_append.mp member with here | after
      · exact (mem_nonceIter.mp here).1
      · exact UInt64.le_trans order (later nonce after)
    · refine pairwise_append.mpr ⟨nonceIter_increasing _ _, increasing, ?_⟩
      intro first here second after
      exact UInt64.lt_of_lt_of_le (mem_nonceIter.mp here).2 (later second after)

/-- In every sequence of batches the packets are sealed under increasing nonces. -/
theorem nonces_increasing (W : WgCrypto) (session : TransmitSession) (batches : List (List Bytes)) :
    (∀ packets, (session.encrypt W packets).2 =
      zipWith (session.frame W) (session.nonces packets) packets ++
        packets.drop (session.nonces packets).length) ∧
      (session.noncesOf W batches).Pairwise (· < ·) :=
  ⟨session.encrypt_eq W, (session.noncesOf_increasing W).2⟩

end Nonces

end TransmitSession

/-- A packet that decrypted, with the key and the counter it did so under. The code keeps the
payload alone. -/
structure Opened where
  key : Bytes
  packet : Bytes
  counter : UInt64
  payload : Bytes
  deriving DecidableEq

structure ReceiveSession where
  key : Bytes
  id : SessionId
  created : Instant
  window : ReplayWindow

namespace ReceiveSession

def new (key : Bytes) (id : SessionId) (now : Instant) : ReceiveSession :=
  ⟨key, id, now, ReplayWindow.default⟩

/-- The payload of an authentic message with a new counter. A message for another
session is refused, loudly in debug builds. -/
def decryptOne (W : WgCrypto) (debug : Bool) (session : ReceiveSession) (pkt : Bytes) :
    Except Halt (ReceiveSession × Option Opened) :=
  match TransportDataHeader.ofPrefix pkt with
  | none => .ok (session, none)
  | some header =>
    if header.receiverId ≠ session.id then
      if debug then .error .wrongReceiver else .ok (session, none)
    else if ¬session.window.check header.nonce then .ok (session, none)
    else match W.aeadDecrypt session.key (nonceBytes header.nonce) [] (pkt.drop 16) with
      | none => .ok (session, none)
      | some payload => do
          let window ← session.window.set header.nonce
          return ({ session with window := window },
            some ⟨session.key, pkt, header.nonce, payload⟩)

/-- The packets that decrypt, in order. -/
def decrypt (W : WgCrypto) (debug : Bool) :
    ReceiveSession → List Bytes → Except Halt (ReceiveSession × List Opened)
  | session, [] => .ok (session, [])
  | session, pkt :: rest => do
      let (session, first) ← session.decryptOne W debug pkt
      let (session, others) ← session.decrypt W debug rest
      return (session, first.toList ++ others)

def expired (session : ReceiveSession) (now : Instant) : Bool :=
  rejectAfterTimeRecv < now - session.created

end ReceiveSession

end TailscaleRs.Tunnel
