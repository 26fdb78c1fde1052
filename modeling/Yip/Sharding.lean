/-
This file models a node that runs on several shards (`sharding.rs`).
-/

import Yip.PeerManager.Dispatch

namespace Yip

open Crypto Transport

def ringCapacity : Nat := 2048

inductive ShardMsg where
  | packet (inner : List Byte)
  | sessionEpoch (msg : SessionEpochMsg)
  | handshakeForward (bytes : List Byte) (src : SocketAddr)
  | arqFeedback (bytes : List Byte) (src : SocketAddr)

def shardForFecSymbol (connTag objectId numShards : Nat) : Nat :=
  if numShards ≤ 1 then 0
  else (connTag ^^^ (objectId * 0x9e3779b97f4a7c15 % 2 ^ 64)) % numShards

def shardForWireHeader (header : List Byte) (numShards : Nat) : Nat :=
  if numShards ≤ 1 ∨ header.length < 10 then 0
  else shardForFecSymbol (ofBeBytes (header.take 8)) (ofBeBytes ((header.drop 8).take 2)) numShards

def shardForOuterUdp (datagram : List Byte) (numShards : Nat) : Option Nat :=
  if numShards ≤ 1 ∨ datagram.length < 11 then none
  else if datagram.head? = some PacketType.data.toByte then
    some (shardForWireHeader ((datagram.drop 1).take 10) numShards)
  else none

def shardForFecControl (payload : List Byte) (numShards : Nat) : Option Nat :=
  if numShards ≤ 1 ∨ payload.length < 11 then none
  else if payload.head? = some PacketType.control.toByte then
    some (shardForFecSymbol (ofBeBytes ((payload.drop 1).take 8))
      (ofBeBytes ((payload.drop 9).take 2)) numShards)
  else none

def isHandshake (payload : List Byte) : Bool :=
  payload.head? = some PacketType.handshakeInit.toByte ∨
    payload.head? = some PacketType.handshakeResp.toByte

def SessionEpochMsg.established (msg : SessionEpochMsg) (shardId numShards : Nat) : Established :=
  ⟨Session.fromRawKeys msg.sendKey msg.recvKey shardId numShards, msg.authKey, msg.hpKey,
    msg.sendKey, msg.recvKey⟩

def PeerManager.isTunTargetEstablished {env : Primitives} (pm : PeerManager env)
    (inner : List Byte) : Bool :=
  ((pm.routeTunIndex inner).bind fun idx => pm.peers[idx]?).any (·.state.isEstablished)

/-- The workers, the rings between them and what was written. -/
structure Node (env : Primitives) where
  numShards : Nat
  shard : Nat → PeerManager env
  ring : Nat → Nat → List ShardMsg
  written : List (List Byte)

namespace Node

variable {env : Primitives}

def new (config : PeerManager.Config env) (numShards : Nat) : Node env where
  numShards := numShards
  shard := fun shardId =>
    PeerManager.new { config with shardId := shardId, numShards := numShards }
  ring := fun _ _ => []
  written := []

def setShard (node : Node env) (shardId : Nat) (pm : PeerManager env) : Node env :=
  { node with shard := Function.update node.shard shardId pm }

def setRing (node : Node env) (src dst : Nat) (ring : List ShardMsg) : Node env :=
  { node with
    ring := fun sender receiver =>
      if sender = src ∧ receiver = dst then ring else node.ring sender receiver }

def pushRing (ring : List ShardMsg) (msg : ShardMsg) : List ShardMsg :=
  if ring.length < ringCapacity then ring ++ [msg] else ring

def push (node : Node env) (src dst : Nat) (msg : ShardMsg) : Node env :=
  node.setRing src dst (pushRing (node.ring src dst) msg)

def broadcast (node : Node env) (shardId : Nat) : Node env :=
  if shardId = 0 then
    let (pm, msgs) := (node.shard 0).drainNewEpochs
    { node.setShard 0 pm with
      ring := fun src dst =>
        if src = 0 ∧ 0 < dst ∧ dst < node.numShards then
          (msgs.map .sessionEpoch).foldl pushRing (node.ring src dst)
        else node.ring src dst }
  else node

def onUdp (node : Node env) (shardId : Nat) (src : SocketAddr) (dg : List Byte)
    (moment : Moment) : Node env :=
  match (node.shard shardId).onUdpDispatch src dg moment with
  | none => node
  | some (pm, out) =>
    { node.setShard shardId pm with written := node.written ++ out.tun.toList }.broadcast shardId

def forwards (node : Node env) (shardId : Nat) (dg : List Byte) : Option Nat :=
  if shardId ≠ 0 ∧ isHandshake dg then some 0
  else
    (shardForFecControl dg node.numShards).filter fun target =>
      target ≠ shardId ∧ (node.ring shardId target).length < ringCapacity

def receive (node : Node env) (shardId : Nat) (src : SocketAddr) (dg : List Byte)
    (moment : Moment) : Node env :=
  match node.forwards shardId dg with
  | some target =>
    node.push shardId target
      (if isHandshake dg then .handshakeForward dg src else .arqFeedback dg src)
  | none => node.onUdp shardId src dg moment

def sendPacket (node : Node env) (shardId : Nat) (inner : List Byte) (moment : Moment) :
    Node env :=
  node.setShard shardId ((node.shard shardId).onTunDispatch inner moment).1

def onTun (node : Node env) (shardId : Nat) (inner : List Byte) (moment : Moment) : Node env :=
  if (node.shard shardId).isTunTargetEstablished inner then node.sendPacket shardId inner moment
  else if shardId = 0 then (node.sendPacket shardId inner moment).broadcast shardId
  else node.push shardId 0 (.packet inner)

def inbox (node : Node env) (src shardId : Nat) (moment : Moment) : Node env :=
  match node.ring src shardId with
  | [] => node
  | msg :: rest =>
    let node := node.setRing src shardId rest
    match msg with
    | .packet inner => (node.sendPacket shardId inner moment).broadcast shardId
    | .sessionEpoch msg =>
      node.setShard shardId ((node.shard shardId).installEstablishedSession msg.peerPk
        (msg.established shardId node.numShards) msg.endpoint)
    | .handshakeForward bytes src => node.onUdp shardId src bytes moment
    | .arqFeedback bytes src => node.onUdp shardId src bytes moment

def tick (node : Node env) (shardId : Nat) (moment : Moment) : Node env :=
  (node.setShard shardId ((node.shard shardId).tickDispatch moment).1).broadcast shardId

inductive Event where
  | receive (shardId : Nat) (src : SocketAddr) (dg : List Byte) (moment : Moment)
  | tun (shardId : Nat) (inner : List Byte) (moment : Moment)
  | inbox (src shardId : Nat) (moment : Moment)
  | tick (shardId : Nat) (moment : Moment)

def Event.shardId : Event → Nat
  | receive shardId _ _ _ | tun shardId _ _ | inbox _ shardId _ | tick shardId _ => shardId

def step (node : Node env) (event : Event) : Node env :=
  if event.shardId < node.numShards then
    match event with
    | .receive shardId src dg moment => node.receive shardId src dg moment
    | .tun shardId inner moment => node.onTun shardId inner moment
    | .inbox src shardId moment => node.inbox src shardId moment
    | .tick shardId moment => node.tick shardId moment
  else node

end Node

end Yip
