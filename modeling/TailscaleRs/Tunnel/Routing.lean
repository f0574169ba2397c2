import TailscaleRs.Lib.Except
import TailscaleRs.Tunnel.Ownership

namespace TailscaleRs.Tunnel

open Function List
open Time (Instant)

namespace Work

def receiver (w : Work) (id : SessionId) : Option PeerId :=
  (w.ctx.state.ids.sessions id).filter (fun owner => (w.peers owner).isSome)

variable (W : WgCrypto) (debug : Bool) (now : Instant) (origin : Option PeerId)

variable {w : Work}

section

variable {id : PeerId} {there : Bool}

variable (group : SessionId × List Bytes)

end

variable (packets : List Bytes) (order : List Nat)

end Work

variable (id : UInt32)

def toyCall : Stimulus := toyAt 0 id (.send [(toyFar, [[65, 66]])])

def toyResponse : Bytes :=
  (toySent 20 [toyAccept]
    (toyAt 1 201 (.recv (toySent 10 [toyDial] (toyCall id) toyFar) [])) toyNear).headD []

end TailscaleRs.Tunnel
