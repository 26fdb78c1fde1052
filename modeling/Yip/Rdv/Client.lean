/-
This file models the daemon's side of the rendezvous protocol: the client of a configured server
(`rendezvous.rs` of the daemon), which turns requests into datagrams for the server and
datagrams of the server into events.
-/

import Yip.Primitives
import Yip.Rdv.Proto

namespace Yip.Rdv

open Members

/-! ### Addresses and node ids as numbers -/

def ipNumber : IpAddr → Nat
  | .v4 octets => ofBeBytes octets.toList
  | .v6 octets => 2 ^ 32 + ofBeBytes octets.toList

def endpoint (addr : Members.SocketAddr) : Yip.SocketAddr := ⟨ipNumber addr.ip, addr.port⟩

def nodeNumber (node : NodeId) : Nat := ofBeBytes node.toList

def nodeOfNumber (number : Nat) : NodeId := ⟨toBeBytes 16 number, length_toBeBytes 16 number⟩

/-! ### The client -/

def registration (node : NodeId) (signed : Option Record) : Message :=
  match signed with
  | some record => .registerSigned record
  | none => .register node 0

def toServer (server : Yip.SocketAddr) (message : Message) : EgressDatagram :=
  ⟨0, server, (encode message).getD []⟩

def eventOf : Message → RdvEvent Record
  | .peerInfo node reflexive record => .peerCandidate (nodeNumber node) (endpoint reflexive) record
  | .punchHint node reflexive => .punchTo (nodeNumber node) (endpoint reflexive)
  | .relayDeliver src payload => .relayed (nodeNumber src) payload
  | .notFound node => .notFound (nodeNumber node)
  | .register _ _ | .lookup _ | .relaySend _ _ _ | .registerSigned _ | .registerAuth _ _ _ =>
    .ignored

def configuredServer : Rendezvous Record where
  Client := Yip.SocketAddr
  serverAddr := id
  lookup := fun server node => toServer server (.lookup (nodeOfNumber node))
  relay := fun server src dst payload =>
    toServer server (.relaySend (nodeOfNumber src) (nodeOfNumber dst) payload)
  parse := fun _ datagram => (decode datagram).elim .ignored eventOf

theorem parse_encode {message : Message} {bytes : List Byte} (sized : message.Sized)
    (encoded : encode message = some bytes) (client : configuredServer.Client) :
    configuredServer.parse client bytes = eventOf message := by
  change (decode bytes).elim .ignored eventOf = eventOf message
  rw [decode_encode sized encoded]
  rfl

end Yip.Rdv
