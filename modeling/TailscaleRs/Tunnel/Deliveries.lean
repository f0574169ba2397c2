import Mathlib.Data.List.Perm.Subperm
import TailscaleRs.Tunnel.Ownership
import TailscaleRs.Tunnel.ReplayRing

namespace TailscaleRs.Tunnel

open Function List ReplayWindow TransportDataHeader
open Time (Instant)
open ReceiveSession (new key)

/-- The transport message that was delivered: the key stands for its session. -/
def Delivery.message (d : Delivery) : Bytes × UInt64 := (d.key, d.counter)

/-- The packet carries the counter and opens to the payload. -/
def Opened.Authentic (W : WgCrypto) (d : Opened) : Prop :=
  ((ofPrefix d.packet).map nonce = some d.counter) ∧
    W.aeadDecrypt d.key (nonceBytes d.counter) [] (d.packet.drop 16) = some d.payload

def countersIn (happened : List Happening) (key : Bytes) : List UInt64 :=
  ((deliveredIn happened).filter (fun d => d.key = key)).map (fun d => d.counter)

def Call.packets : Call → List Bytes
  | .recvFrom _ packets _ => packets
  | _ => []

/-- A call that returned and what it handed back. -/
structure CallRecord where
  stimulus : Stimulus
  out : Outbox

def CallRecord.happened (record : CallRecord) : List Happening := record.out.happened

def Endpoint.records (W : WgCrypto) (debug : Bool) : Endpoint → List Stimulus → List CallRecord
  | _, [] => []
  | e, stimulus :: rest =>
    match e.call W debug stimulus with
    | .error _ => []
    | .ok (after, out) => ⟨stimulus, out⟩ :: after.records W debug rest

/-- The receive sessions in the slots of a peer: current, previous and tentative. -/
def Peer.recvs (peer : Peer) : List ReceiveSession := peer.session.recvs ++ peer.handshake.recvs

def held (peers : PeerId → Option Peer) (id : PeerId) : List ReceiveSession :=
  (peers id).elim [] Peer.recvs

/-- How a peer's receive sessions can change, and the record with them: sessions move between
slots or are dropped, one is created with an empty window, or one accepts an authentic message
with a counter that its window lets through. -/
inductive Evolves (W : WgCrypto) (batch : List Bytes) :
    List ReceiveSession × List Happening → List ReceiveSession × List Happening → Prop
  | rearrange {before after : List ReceiveSession} (log : List Happening)
      (kept : after.Subperm before) : Evolves W batch (before, log) (after, log)
  | create (before : List ReceiveSession) (log : List Happening) (key : Bytes) (id : SessionId)
      (now : Instant) :
      Evolves W batch (before, log) (new key id now :: before, log ++ [.created key])
  | accept (session : ReceiveSession) (rest : List ReceiveSession) (log : List Happening)
      (d : Delivery) (window : ReplayWindow) (key : d.key = session.key)
      (received : d.packet ∈ batch) (authentic : d.Authentic W)
      (accepted : session.window.set d.counter = .ok window) :
      Evolves W batch (session :: rest, log)
        ({ session with window := window } :: rest, log ++ [.delivered d])
  | trans {before middle after : List ReceiveSession × List Happening}
      (one : Evolves W batch before middle) (two : Evolves W batch middle after) :
      Evolves W batch before after

/-- Every window is the one that some accepted counters leave behind. -/
def Sound (recvs : List ReceiveSession) : Prop :=
  ∀ session ∈ recvs, ∃ seen, having seen = .ok session.window

namespace Evolves

variable {W : WgCrypto} {batch : List Bytes} {before after : List ReceiveSession × List Happening}

theorem refl (before : List ReceiveSession × List Happening) : Evolves W batch before before :=
  rearrange before.2 (List.Subperm.refl before.1)

theorem perm {first last : List ReceiveSession} (start : first.Perm before.1)
    (evolves : Evolves W batch before after) (finish : last.Subperm after.1) :
    Evolves W batch (first, before.2) (last, after.2) :=
  ((rearrange before.2 start.symm.subperm).trans evolves).trans (rearrange after.2 finish)

variable (evolves : Evolves W batch before after)
include evolves

theorem grows : before.2 <+: after.2 := by
  induction evolves with
  | rearrange log kept => exact prefix_rfl
  | create before log key id now => exact prefix_append log _
  | accept session rest log d window key received authentic accepted => exact prefix_append log _
  | trans one two first second => exact first.trans second

theorem genuine (old : ∀ d ∈ deliveredIn before.2, d.packet ∈ batch ∧ d.Authentic W) :
    ∀ d ∈ deliveredIn after.2, d.packet ∈ batch ∧ d.Authentic W := by
  induction evolves with
  | rearrange log kept => exact old
  | create before log key id now =>
    intro d member
    rw [deliveredIn_append] at member
    exact old d ((mem_append.mp member).resolve_right not_mem_nil)
  | accept session rest log d window key received authentic accepted =>
    intro other member
    rw [deliveredIn_append] at member
    rcases mem_append.mp member with earlier | new
    · exact old other earlier
    · rw [mem_singleton.mp new]
      exact ⟨received, authentic⟩
  | trans one two first second => exact second (first old)

theorem sound (sound : Sound before.1) : Sound after.1 := by
  induction evolves with
  | rearrange log kept => exact fun session member => sound session (kept.subset member)
  | create before log key id now =>
    intro session member
    rcases mem_cons.mp member with rfl | old
    · exact ⟨[], rfl⟩
    · exact sound session old
  | accept session rest log d window key received authentic accepted =>
    intro other member
    rcases mem_cons.mp member with rfl | old
    · obtain ⟨seen, made⟩ := sound session mem_cons_self
      refine ⟨seen ++ [d.counter], ?_⟩
      rw [having_snoc, made]
      exact accepted
    · exact sound other (mem_cons_of_mem _ old)
  | trans one two first second => exact second (first sound)

end Evolves

/-- No two receive sessions of an endpoint share a key, the window of each is exactly what the
deliveries under its key leave behind, and no message was delivered twice. -/
structure Guarded (held : PeerId → List ReceiveSession) (past : List Happening) : Prop where
  distinct : ∀ id, ((held id).map key).Nodup
  apart : ∀ id other, id ≠ other → Disjoint ((held id).map key) ((held other).map key)
  known : ∀ id, (held id).map key ⊆ createdIn past
  windows : ∀ id, ∀ session ∈ held id,
    having (countersIn past session.key) = .ok session.window
  traced : ∀ d ∈ deliveredIn past, d.key ∈ createdIn past
  once : ((deliveredIn past).map Delivery.message).Nodup

theorem mem_update {α : Type} {lists : PeerId → List α} {id other : PeerId} {after : List α}
    {item : α} (member : item ∈ update lists id after other) :
    (other = id ∧ item ∈ after) ∨ (other ≠ id ∧ item ∈ lists other) := by
  by_cases same : other = id
  · subst same
    rw [update_self] at member
    exact .inl ⟨rfl, member⟩
  · rw [update_of_ne same] at member
    exact .inr ⟨same, member⟩

namespace Guarded

variable {held : PeerId → List ReceiveSession} {past : List Happening} {id : PeerId}

theorem empty : Guarded (fun _ => []) [] where
  distinct _ := nodup_nil
  apart _ _ _ := disjoint_nil_left _
  known _ := Subset.refl _
  windows _ _ member := nomatch member
  traced _ member := nomatch member
  once := nodup_nil

variable {after : List ReceiveSession} (guarded : Guarded held past)
include guarded

theorem rearrange (kept : after.Subperm (held id)) : Guarded (update held id after) past := by
  have old (other : PeerId) : (update held id after other).Subperm (held other) := by
    by_cases same : other = id
    · subst same
      rwa [update_self]
    · rw [update_of_ne same]
  have keys (other : PeerId) :
      (update held id after other).map key ⊆ (held other).map key :=
    map_subset key (old other).subset
  refine ⟨fun other => ?_, fun first second different => ?_,
    fun other => Subset.trans (keys other) (guarded.known other),
    fun other session member => guarded.windows other session ((old other).subset member),
    guarded.traced, guarded.once⟩
  · obtain ⟨middle, perm, sublist⟩ := old other
    exact (perm.map key).nodup_iff.mp ((guarded.distinct other).sublist (sublist.map key))
  · exact disjoint_of_subset_left (keys first)
      (disjoint_of_subset_right (keys second) (guarded.apart first second different))

theorem create (key : Bytes) (session : SessionId) (now : Instant) (fresh : key ∉ createdIn past) :
    Guarded (update held id (new key session now :: held id))
      (past ++ [.created key]) := by
  have created : createdIn (past ++ [.created key]) = createdIn past ++ [key] :=
    createdIn_append past _
  have delivered : deliveredIn (past ++ [.created key]) = deliveredIn past := by
    rw [deliveredIn_append]
    exact append_nil _
  have counters (other : Bytes) : countersIn (past ++ [.created key]) other =
      countersIn past other := by
    rw [countersIn, delivered]
    rfl
  have unused : countersIn past key = [] := by
    rw [countersIn, map_eq_nil_iff, filter_eq_nil_iff]
    intro d member same
    rw [← of_decide_eq_true same] at fresh
    exact fresh (guarded.traced d member)
  have strange (other : PeerId) : key ∉ (held other).map ReceiveSession.key :=
    fun present => fresh (guarded.known other present)
  refine ⟨fun other => ?_, fun first second different => ?_, fun other => ?_,
    fun other recv member => ?_, ?_, ?_⟩
  · by_cases same : other = id
    · subst same
      rw [update_self, map_cons, nodup_cons]
      exact ⟨strange other, guarded.distinct other⟩
    · rw [update_of_ne same]
      exact guarded.distinct other
  · have apart := guarded.apart first second different
    by_cases same : first = id
    · subst same
      rw [update_self, update_of_ne different.symm, map_cons, disjoint_cons_left]
      exact ⟨strange second, apart⟩
    · rw [update_of_ne same]
      by_cases same : second = id
      · subst same
        rw [update_self, map_cons, disjoint_cons_right]
        exact ⟨strange first, apart⟩
      · rwa [update_of_ne same]
  · rw [created]
    by_cases same : other = id
    · subst same
      rw [update_self, map_cons, cons_subset]
      exact ⟨mem_append_right _ (mem_singleton_self _),
        Subset.trans (guarded.known other) (subset_append_left _ _)⟩
    · rw [update_of_ne same]
      exact Subset.trans (guarded.known other) (subset_append_left _ _)
  · rw [counters]
    rcases mem_update member with ⟨rfl, own⟩ | ⟨-, foreign⟩
    · rcases mem_cons.mp own with rfl | old
      · rw [new, unused]
        rfl
      · exact guarded.windows other recv old
    · exact guarded.windows other recv foreign
  · rw [delivered, created]
    exact fun d member => mem_append_left _ (guarded.traced d member)
  · rw [delivered]
    exact guarded.once

/-- Every session but the one that has changed has another key. -/
theorem key_ne {session after recv : ReceiveSession} {rest : List ReceiveSession} {other : PeerId}
    (own : held id = session :: rest) (member : recv ∈ update held id (after :: rest) other) :
    recv = after ∨ (recv ∈ held other ∧ recv.key ≠ session.key) := by
  rcases mem_update member with ⟨rfl, present⟩ | ⟨foreign, present⟩
  · refine (mem_cons.mp present).imp_right fun old => ⟨own ▸ mem_cons_of_mem session old, ?_⟩
    have distinct := guarded.distinct other
    rw [own, map_cons, nodup_cons] at distinct
    exact fun equal => distinct.1 (equal ▸ mem_map_of_mem old)
  · have here : session ∈ held id := own ▸ mem_cons_self
    refine .inr ⟨present, fun equal => guarded.apart other id foreign ?_ (mem_map_of_mem here)⟩
    exact equal ▸ mem_map_of_mem present

theorem accept (session : ReceiveSession) (rest : List ReceiveSession) (d : Delivery)
    (window : ReplayWindow) (own : held id = session :: rest) (key : d.key = session.key)
    (accepted : session.window.set d.counter = .ok window) :
    Guarded (update held id ({ session with window := window } :: rest))
      (past ++ [.delivered d]) := by
  have created : createdIn (past ++ [.delivered d]) = createdIn past := by
    rw [createdIn_append]
    exact append_nil _
  have delivered : deliveredIn (past ++ [.delivered d]) = deliveredIn past ++ [d] :=
    deliveredIn_append past _
  have here : session ∈ held id := own ▸ mem_cons_self
  have before := guarded.windows id session here
  have unseen : d.counter ∉ countersIn past session.key :=
    (((having_records _ _ before).check_iff).mp
      (check_of_set accepted)).1
  have same (other : Bytes) (different : other ≠ session.key) :
      countersIn (past ++ [.delivered d]) other = countersIn past other := by
    have apart : ¬d.key = other := fun equal => different (equal.symm.trans key)
    simp [countersIn, delivered, apart]
  have keys (other : PeerId) :
      (update held id ({ session with window := window } :: rest) other).map ReceiveSession.key =
        (held other).map ReceiveSession.key := by
    by_cases mine : other = id
    · subst mine
      rw [update_self, own]
      rfl
    · rw [update_of_ne mine]
  have known : session.key ∈ createdIn past := guarded.known id (mem_map_of_mem here)
  refine ⟨fun other => ?_, fun first second different => ?_, fun other => ?_,
    fun other recv member => ?_, ?_, ?_⟩
  · rw [keys]
    exact guarded.distinct other
  · rw [keys, keys]
    exact guarded.apart first second different
  · rw [keys, created]
    exact guarded.known other
  · rcases guarded.key_ne own member with rfl | ⟨old, different⟩
    · have more : countersIn (past ++ [.delivered d]) session.key =
          countersIn past session.key ++ [d.counter] := by
        simp [countersIn, delivered, key]
      rw [more, having_snoc, before]
      exact accepted
    · rw [same recv.key different]
      exact guarded.windows other recv old
  · rw [delivered, created]
    intro other member
    rcases mem_append.mp member with old | new
    · exact guarded.traced other old
    · rw [mem_singleton.mp new, key]
      exact known
  · rw [delivered, map_append, nodup_append]
    refine ⟨guarded.once, nodup_singleton _, fun first old second new equal => ?_⟩
    rw [mem_singleton.mp new] at equal
    obtain ⟨other, member, rfl⟩ := mem_map.mp old
    rw [Delivery.message, Delivery.message, Prod.mk.injEq] at equal
    refine unseen (mem_map.mpr ⟨other, mem_filter.mpr ⟨member, ?_⟩, equal.2⟩)
    exact decide_eq_true (equal.1.trans key)

omit guarded

/-- What a peer's sessions can do keeps the guard, as long as new keys are new. -/
theorem evolve {W : WgCrypto} {batch : List Bytes}
    {before after : List ReceiveSession × List Happening} (evolves : Evolves W batch before after)
    (guarded : Guarded held (past ++ before.2)) (own : held id = before.1)
    (fresh : (createdIn (past ++ after.2)).Nodup) :
    Guarded (update held id after.1) (past ++ after.2) := by
  induction evolves generalizing held with
  | rearrange log kept => exact guarded.rearrange (own ▸ kept)
  | create before log key session now =>
    rw [← append_assoc] at fresh ⊢
    rw [createdIn_append, nodup_append] at fresh
    have new : key ∉ createdIn (past ++ log) :=
      fun old => fresh.2.2 key old key (mem_singleton_self key) rfl
    obtain rfl : held id = before := own
    exact guarded.create key session now new
  | accept session rest log d window key received authentic accepted =>
    rw [← append_assoc]
    exact guarded.accept session rest d window own key accepted
  | trans one two first second =>
    have middle := first guarded own (by
      obtain ⟨more, grown⟩ := two.grows
      rw [← grown, ← append_assoc, createdIn_append] at fresh
      exact fresh.of_append_left)
    have last := second middle (update_self id _ held) fresh
    rw [update_idem] at last
    exact last

end Guarded

end TailscaleRs.Tunnel
