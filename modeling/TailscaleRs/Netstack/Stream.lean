import TailscaleRs.Lib.Run

namespace TailscaleRs.Netstack

/-- A boxed future: polling it again once it is complete is a panic. -/
inductive Fut (α : Type) where
  | waiting (request : α)
  | complete
  deriving DecidableEq

inductive Poll where
  | pending
  | ok (n : Nat)
  | err
  | panicked
  deriving DecidableEq

inductive RecvError where
  | finished
  | invalidState

/-- The TCP socket of smoltcp: a receive hands out the front of the queue, as far as it lies in
one piece, and goes on with a socket that has lost the bytes that were taken. -/
structure TcpSocket (S : Type) where
  recv : S → Except RecvError (List UInt8 × (Nat → S))
  recvQueue : S → Nat

inductive RecvCommand where
  | recv (maxLen : Option Nat)
  | recvCoalesced (maxLen : Nat)
  deriving DecidableEq

inductive Response where
  | recv (buf : List UInt8)
  | finished
  | wouldBlock
  | missingSocket
  | error

/-- How a request fares: its channel is closed, or the netstack comes to it when the socket is gone
or in some state. -/
inductive Served (S : Type) where
  | closed
  | missing
  | socket (s : S)

section

variable {S : Type}

/-- Collect what is ready across the wrap of the ring. A turn that does not end took a byte. -/
def TcpSocket.drain (sock : TcpSocket S) (maxLen : Nat) (out : List UInt8) (s : S) :
    Except RecvError (List UInt8) :=
  match sock.recv s with
  | .error e => .error e
  | .ok (buf, rest) =>
    let n := min buf.length (maxLen - out.length)
    let out := out ++ buf.take n
    if n = 0 ∨ out.length = maxLen ∨ sock.recvQueue (rest n) = 0 then .ok out
    else sock.drain maxLen out (rest n)
termination_by maxLen - out.length
decreasing_by
  rename_i goes
  simp only [out, List.length_append, List.length_take] at goes ⊢
  omega

variable (sock : TcpSocket S)

/-- The `Recv` and `RecvCoalesced` arm of `process_tcp_stream`. -/
def processTcpStream (s : S) (cmd : RecvCommand) : Response :=
  let result := match cmd with
    | .recvCoalesced maxLen => sock.drain maxLen [] s
    | .recv maxLen => do
        let (buf, _) ← sock.recv s
        return buf.take (maxLen.elim buf.length (min buf.length))
  match result with
  | .ok buf => if buf = [] then .wouldBlock else .recv buf
  | .error .finished => .finished
  | .error .invalidState => .error

theorem processTcpStream_nonempty {s : S} {cmd : RecvCommand} {buf : List UInt8}
    (answered : processTcpStream sock s cmd = .recv buf) : buf ≠ [] := by
  unfold processTcpStream at answered
  dsimp only at answered
  split at answered
  · split at answered
    · cases answered
    · case _ nonempty =>
        cases answered
        exact nonempty
  · cases answered
  · cases answered

/-- What the request yields, if anything yet: one that would block stays with the netstack. -/
def Served.answer (cmd : RecvCommand) : Served S → Option Response
  | .closed => some .error
  | .missing => some .missingSocket
  | .socket s =>
    match processTcpStream sock s cmd with
    | .wouldBlock => none
    | response => some response

end

/-- The bytes that the future of a read makes of an answer. -/
def Response.bytes : Response → Option (List UInt8)
  | .recv buf => some buf
  | .finished | .missingSocket => some []
  | _ => none

/-- The reading half, with all bytes that it delivered and that the netstack answered. -/
structure Reader where
  fut : Option (Fut RecvCommand)
  remainder : Option (List UInt8)
  delivered : List UInt8
  answered : List UInt8

/-- A call with a buffer of some length, in the mode that `set_coalesced_reads` chose, and how the
request in flight has fared when the call polls its future. -/
structure Read (S : Type) where
  len : Nat
  nonempty : 0 < len
  coalesced : Bool
  served : Option (Served S)

def Read.command {S : Type} (call : Read S) : RecvCommand :=
  if call.coalesced then .recvCoalesced call.len else .recv (some call.len)

namespace Reader

def new : Reader := ⟨none, none, [], []⟩

def copyIntoBuf (r : Reader) (data : List UInt8) (len : Nat) : Reader × Poll :=
  let n := min data.length len
  let tail := data.drop n
  ({ r with
      remainder := if tail = [] then none else some tail
      delivered := r.delivered ++ data.take n }, .ok n)

variable {S : Type} (sock : TcpSocket S)

def pollRead (r : Reader) (call : Read S) : Reader × Poll :=
  match r.remainder with
  | some rem => r.copyIntoBuf rem call.len
  | none =>
    match r.fut.getD (.waiting call.command) with
    | .complete => (r, .panicked)
    | .waiting cmd =>
      match call.served.bind (Served.answer sock cmd) with
      | none => ({ r with fut := some (.waiting cmd) }, .pending)
      | some answer =>
        match answer.bytes with
        -- an error is returned before the future is taken
        | none => ({ r with fut := some .complete }, .err)
        | some data =>
          { r with fut := none, answered := r.answered ++ data }.copyIntoBuf data call.len

def step (r : Reader) (call : Read S) : Reader := (r.pollRead sock call).1

/-- The netstack's answer to the request in flight says that the stream has ended. -/
def Ended (r : Reader) (call : Read S) : Prop :=
  ∃ cmd, r.fut.getD (.waiting call.command) = .waiting cmd ∧
    (call.served.bind (Served.answer sock cmd) = some .finished ∨
      call.served.bind (Served.answer sock cmd) = some .missingSocket)

/-- What a caller may rely on in one call. -/
structure Lossless (r : Reader) (call : Read S) : Prop where
  safe : (r.pollRead sock call).2 ≠ .panicked
  ends : (r.pollRead sock call).2 = .ok 0 → r.remainder = none ∧ r.Ended sock call
  bytes : (r.step sock call).delivered ++ (r.step sock call).remainder.getD [] =
    (r.step sock call).answered

structure Sound (r : Reader) : Prop where
  stashed : r.remainder ≠ some []
  bytes : r.delivered ++ r.remainder.getD [] = r.answered

variable {r : Reader}

theorem copyIntoBuf_sound {data : List UInt8} (all : r.delivered ++ data = r.answered)
    (len : Nat) : Sound (r.copyIntoBuf data len).1 := by
  rw [copyIntoBuf]
  constructor
  · grind
  · have tail : (if data.drop (min data.length len) = [] then none
        else some (data.drop (min data.length len))).getD [] =
        data.drop (min data.length len) := by
      split <;> simp_all
    rw [tail, List.append_assoc, List.take_append_drop]
    exact all

theorem step_sound (sound : Sound r) (call : Read S) : Sound (r.step sock call) := by
  rw [step]
  fun_cases pollRead sock r call with
  | case1 rem held => exact copyIntoBuf_sound (by rw [← sound.bytes, held]; rfl) _
  | case5 empty _ _ _ _ data _ =>
    refine copyIntoBuf_sound ?_ _
    rw [← sound.bytes, empty]
    simp
  | _ => exact ⟨sound.stashed, sound.bytes⟩

theorem copyIntoBuf_zero {data : List UInt8} {len : Nat} (room : 0 < len)
    (zero : (r.copyIntoBuf data len).2 = .ok 0) : data = [] := by
  have none : min data.length len = 0 := Poll.ok.inj zero
  exact List.eq_nil_of_length_eq_zero (by omega)

/-- Only an answer that ends the stream comes with no bytes. -/
theorem ended_of_bytes {served : Option (Served S)} {cmd : RecvCommand} {answer : Response}
    (answered : served.bind (Served.answer sock cmd) = some answer)
    (empty : answer.bytes = some []) : answer = .finished ∨ answer = .missingSocket := by
  match answer, empty with
  | .finished, _ => exact .inl rfl
  | .missingSocket, _ => exact .inr rfl
  | .recv buf, is =>
    obtain ⟨state, rfl, found⟩ := Option.bind_eq_some_iff.mp answered
    cases state with
    | closed | missing => cases found
    | socket s =>
      unfold Served.answer at found
      dsimp only at found
      split at found
      · cases found
      · exact absurd (Option.some.inj is) (processTcpStream_nonempty sock (Option.some.inj found))

theorem lossless (sound : Sound r) (call : Read S) (fresh : r.fut ≠ some .complete) :
    Lossless sock r call := by
  refine ⟨?_, ?_, (step_sound sock sound call).bytes⟩
  · fun_cases pollRead sock r call with
    | case2 empty complete => cases held : r.fut <;> simp_all
    | _ => simp [copyIntoBuf]
  · fun_cases pollRead sock r call with
    | case1 rem held =>
      intro zero
      rw [copyIntoBuf_zero call.nonempty zero] at held
      exact absurd held sound.stashed
    | case5 empty cmd waiting answer answered data is =>
      intro zero
      rw [copyIntoBuf_zero call.nonempty zero] at is
      refine ⟨empty, cmd, waiting, ?_⟩
      rw [answered]
      exact (ended_of_bytes sock answered is).imp (congrArg some) (congrArg some)
    | _ => exact fun zero => by cases zero

end Reader

/-- An answer with an error leaves a complete future behind, which the next call polls. -/
theorem reads_lossless {S : Type} (sock : TcpSocket S) (calls : List (Read S))
    (fresh : Along (Reader.step sock) (fun r _ => r.fut ≠ some .complete) .new calls) :
    Along (Reader.step sock) (Reader.Lossless sock) .new calls :=
  along_of_invariant _ _ _ Reader.Sound (fun _ call sound _ => Reader.step_sound sock sound call)
    (fun _ call sound fresh => Reader.lossless sock sound call fresh) ⟨by simp [Reader.new], rfl⟩
    fresh

/-- A socket that holds some bytes, or that gives an error. -/
def toySocket : TcpSocket (Except RecvError (List UInt8)) where
  recv s := s.map (fun queue => (queue, fun n => .ok (queue.drop n)))
  recvQueue s := (s.toOption.getD []).length

/-- The request for four bytes blocks on an empty queue and is answered when the next buffer has
room for one. -/
theorem reads_lossless_stashed : Along (Reader.step toySocket) (Reader.Lossless toySocket) .new
    [⟨4, by decide, false, some (.socket (.ok []))⟩,
      ⟨1, by decide, false, some (.socket (.ok [7, 8, 9, 10, 11]))⟩, ⟨5, by decide, true, none⟩,
      ⟨5, by decide, false, some (.socket (.error .finished))⟩] :=
  reads_lossless toySocket _ (by decide)

theorem reads_panic : ¬Along (Reader.step toySocket) (Reader.Lossless toySocket) .new
    [⟨4, by decide, false, some (.socket (.error .invalidState))⟩, ⟨4, by decide, false, none⟩] :=
  fun lossless => lossless.2.1.safe rfl

/-- The writing half, with the bytes that its callers were told are written and those that the
netstack accepted. -/
structure Writer where
  fut : Option (Fut (List UInt8))
  written : List UInt8
  accepted : List UInt8

/-- A call, and what the netstack answers when it polls the future: the room that a send found, or
an error. -/
structure Write where
  buf : List UInt8
  answer : Option (Option Nat)

namespace Writer

def new : Writer := ⟨none, [], []⟩

def pollWrite (w : Writer) (call : Write) : Writer × Poll :=
  match w.fut.getD (.waiting call.buf) with
  | .complete => (w, .panicked)
  | .waiting buf =>
    match call.answer with
    | none => ({ w with fut := some (.waiting buf) }, .pending)
    | some none => ({ w with fut := some .complete }, .err)
    | some (some room) =>
      let n := min room buf.length
      (⟨none, w.written ++ call.buf.take n, w.accepted ++ buf.take n⟩, .ok n)

def step (w : Writer) (call : Write) : Writer := (w.pollWrite call).1

def inFlight (w : Writer) : Option (List UInt8) :=
  match w.fut with
  | some (.waiting buf) => some buf
  | _ => none

structure Accounted (w : Writer) (call : Write) : Prop where
  within : ∀ n, (w.pollWrite call).2 = .ok n → n ≤ call.buf.length
  bytes : (w.step call).written = (w.step call).accepted

/-- A request that is in flight was made for a beginning of the caller's buffer. -/
def Resumes (w : Writer) (call : Write) : Prop :=
  ∀ buf ∈ w.inFlight, buf <+: call.buf

instance Resumes.decidable (w : Writer) (call : Write) : Decidable (w.Resumes call) :=
  inferInstanceAs (Decidable (∀ buf ∈ w.inFlight, buf <+: call.buf))

theorem accounted {w : Writer} {call : Write} (same : w.written = w.accepted)
    (resumes : w.Resumes call) : Accounted w call := by
  have begins (buf : List UInt8) (is : w.fut.getD (.waiting call.buf) = .waiting buf) :
      buf <+: call.buf := by
    cases held : w.fut with
    | none =>
      rw [held] at is
      cases is
      exact List.prefix_refl _
    | some fut =>
      rw [held] at is
      cases is
      exact resumes buf (by rw [inFlight, held]; rfl)
  refine ⟨fun n => ?_, ?_⟩
  · fun_cases pollWrite w call with
    | case4 buf is room =>
      intro counted
      rw [← Poll.ok.inj counted]
      exact Nat.le_trans (Nat.min_le_right ..) (begins buf is).length_le
    | _ => exact fun never => by cases never
  · rw [step]
    fun_cases pollWrite w call with
    | case4 buf is room =>
      obtain ⟨rest, whole⟩ := begins buf is
      dsimp only
      rw [same, ← whole, List.take_append_of_le_length (Nat.min_le_right ..)]
    | _ => exact same

end Writer

/-- A count is for the buffer of the call that made the request, not for that of the call that it
is returned to. -/
theorem writes_accounted (calls : List Write)
    (resumes : Along Writer.step Writer.Resumes .new calls) :
    Along Writer.step Writer.Accounted .new calls :=
  along_of_invariant _ _ _ (fun w => w.written = w.accepted)
    (fun _ _ same resumes => (Writer.accounted same resumes).bytes)
    (fun _ _ same resumes => Writer.accounted same resumes) rfl resumes

theorem writes_accounted_resumed : Along Writer.step Writer.Accounted .new
    [⟨[1, 2], none⟩, ⟨[1, 2, 3], some (some 2)⟩, ⟨[3], some (some 5)⟩] :=
  writes_accounted _ (by decide)

theorem writes_miscounted : ¬Along Writer.step Writer.Accounted .new
    [⟨[1, 2], none⟩, ⟨[9], some (some 2)⟩] :=
  fun accounted => absurd (accounted.2.1.within 2 rfl) (by decide)

end TailscaleRs.Netstack
