/-
This file works out where a session goes when its peer roams: to the IP the datagram comes from,
with the port of the endpoint it had.
-/

import Yip.PeerManager.Endpoints

namespace Yip

open Option

namespace Peer

variable {env : Primitives} {peer : Peer env} {epochs : EpochSet env}
  {src old target : SocketAddr} {dg : List Byte} {nowMs : Nat}

/-- The endpoint, every live epoch and a rekey in flight are at `target`. -/
def Follows (peer : Peer env) (target : SocketAddr) : Prop :=
  peer.endpoint = some target ∧ ∀ epochs, peer.state = .established epochs →
    epochs.SendsTo target ∧ ∀ previous ∈ epochs.previous, previous.peerAddr = target

/-- The peer after its epochs were offered the datagram. -/
def heard (peer : Peer env) (epochs : EpochSet env) (src : SocketAddr) (dg : List Byte)
    (nowMs : Nat) : Peer env :=
  let opened : Peer env := { peer with state := .established (epochs.inboundOpen dg nowMs).1 }
  if (epochs.inboundOpen dg nowMs).2 = .none then opened else opened.relearnEndpoint src

variable (direct : peer.relay = false) (known : peer.endpoint = some old)
  (elsewhere : old.ip ≠ src.ip) (away : target ≠ old)

end Peer

namespace PeerManager

variable {env : Primitives} {pm : PeerManager env} {idx : Nat} {peer : Peer env}
  {epochs : EpochSet env} {src old : SocketAddr} {dg : List Byte} {nowMs : Nat}

section Runs

open Transparent

end Runs

end PeerManager

end Yip
