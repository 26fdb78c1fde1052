/-
This file gathers what the daemon takes from its libraries and from the crates the model does
not go into, as one parameter of the development: the AEAD, the keyed hash of the wire codec,
the heuristics of the transport, the Noise handshake with its key derivation, the mesh
membership and the client of the rendezvous server.
-/

import Yip.Crypto.Session
import Yip.Transport
import Yip.Wire

namespace Yip

open Crypto Wire

structure SocketAddr where
  ip : Nat
  port : Nat
  deriving DecidableEq, Repr

/-- The first byte of a datagram. -/
inductive PacketType where
  | handshakeInit
  | handshakeResp
  | data
  | control
  | gossip
  deriving DecidableEq, Repr

def PacketType.toByte : PacketType → Byte
  | handshakeInit => Byte.ofNat 0
  | handshakeResp => Byte.ofNat 1
  | data => Byte.ofNat 2
  | control => Byte.ofNat 3
  | gossip => Byte.ofNat 4

/-- A datagram to send; `fate` is the object it belongs to. -/
structure EgressDatagram where
  fate : Nat
  dst : SocketAddr
  bytes : List Byte
  deriving DecidableEq, Repr

/-- What a Noise handshake ends in. -/
structure SplitKeys where
  send : Key
  recv : Key
  channelBinding : List Byte
  deriving DecidableEq, Repr

/-- The Noise handshake, as far as the session code uses it. -/
structure Noise where
  HandshakeState : Type
  writeInit : (localPriv peerPub : Key) → (payload : List Byte) → (seed : Nat) →
    Option (HandshakeState × List Byte)
  readInit : (localPriv : Key) → (message payload : List Byte) → (seed : Nat) →
    Option (SplitKeys × List Byte × Key × List Byte)
  readResp : HandshakeState → List Byte → Option (SplitKeys × List Byte)
  deriveWireKeys : List Byte → Key × Key

/-- The membership of the mesh: certificates, roots and the directory. -/
structure Mesh where
  Membership : Type
  Cert : Type
  decodeCert : List Byte → Option Cert
  notAfter : Cert → Nat
  ownCertBytes : Membership → List Byte
  verifyCert : Membership → Cert → (staticKey : Key) → (nowSecs : Nat) → Bool
  roots : Membership → List (Key × SocketAddr)
  resolve : Membership → (addr : Nat) → Option (Key × List SocketAddr)
  memberCertValid : Membership → Key → (nowSecs : Nat) → Bool
  memberOrAdmittedCertValid :
    Membership → Key → (admittedNotAfter : Option Nat) → (nowSecs : Nat) → Bool
  Record : Type
  recordNode : Record → Nat
  recordEndpoints : Record → List SocketAddr
  verifyRecord : Membership → Record → (nowSecs : Nat) → Bool
  GossipMsg : Type
  decodeGossip : List Byte → Option GossipMsg
  encodeGossip : GossipMsg → List Byte
  onGossip : Membership → GossipMsg → (nowSecs : Nat) → Membership × List GossipMsg
  tickDigest : Membership → (nowMs : Nat) → (obfOn : Bool) → Membership × List GossipMsg

/-- What a datagram of the rendezvous server says. -/
inductive RdvEvent (Record : Type) where
  | peerCandidate (node : Nat) (addr : SocketAddr) (record : Option Record)
  | punchTo (node : Nat) (addr : SocketAddr)
  | relayed (src : Nat) (payload : List Byte)
  | notFound (node : Nat)
  | ignored

/-- The client of the rendezvous server. -/
structure Rendezvous (Record : Type) where
  Client : Type
  serverAddr : Client → SocketAddr
  lookup : Client → (node : Nat) → EgressDatagram
  relay : Client → (src dst : Nat) → (payload : List Byte) → EgressDatagram
  parse : Client → List Byte → RdvEvent Record

/-- Everything outside the modelled code that it calls. -/
structure Primitives where
  aead : Aead
  sip : Sip
  heuristics : Heuristics
  noise : Noise
  mesh : Mesh
  rendezvous : Rendezvous mesh.Record
  nodeAddr : Key → Nat
  nodeId : Key → Nat

/-- The keys and the session a finished handshake leaves. -/
structure Established where
  session : Session
  authKey : Key
  hpKey : Key
  rawSendKey : Key
  rawRecvKey : Key

namespace HandshakeState

variable (env : Primitives)

def establish (keys : SplitKeys) : Established :=
  let (authKey, hpKey) := env.noise.deriveWireKeys keys.channelBinding
  ⟨Session.fromRawKeys keys.send keys.recv 0 1, authKey, hpKey, keys.send, keys.recv⟩

def startInitiator (localPriv peerPub : Key) (payload : List Byte) (seed : Nat) :
    Option (env.noise.HandshakeState × List Byte) :=
  (env.noise.writeInit localPriv peerPub payload seed).map fun (hs, message) =>
    (hs, PacketType.handshakeInit.toByte :: message)

def startResponder (localPriv : Key) (initPkt respPayload : List Byte) (seed : Nat) :
    Option (Established × List Byte × Key × List Byte) :=
  match initPkt with
  | [] => none
  | kind :: message =>
    if kind ≠ PacketType.handshakeInit.toByte then none
    else
      (env.noise.readInit localPriv message respPayload seed).map
        fun (keys, reply, remoteStatic, payload) =>
          (establish env keys, PacketType.handshakeResp.toByte :: reply, remoteStatic, payload)

def readResponse (hs : env.noise.HandshakeState) (respPkt : List Byte) :
    Option (Established × List Byte) :=
  match respPkt with
  | [] => none
  | kind :: message =>
    if kind ≠ PacketType.handshakeResp.toByte then none
    else (env.noise.readResp hs message).map fun (keys, payload) => (establish env keys, payload)

end HandshakeState

/-- The ephemeral key in an Init, by which a repeated Init is known. -/
def initEphemeral (initPkt : List Byte) : Option (List Byte) :=
  if initPkt.length < 33 then none else some ((initPkt.drop 1).take 32)

def tai64nLen : Nat := 12

/-- The timestamp and the certificate in the payload of an Init. -/
def parseInitPayload (payload : List Byte) : Option (Nat × List Byte) :=
  if payload.length < tai64nLen then none
  else some (ofBeBytes (payload.take tai64nLen), payload.drop tai64nLen)

def frameInitPayload (nowTai64n : Nat) (cert : List Byte) : List Byte :=
  toBeBytes tai64nLen nowTai64n ++ cert

end Yip
