/-
This file models the state of the peer manager (`peer_manager/mod.rs`) and the operations on its
tables: the peers, and the maps from connection tag, inner address and rendezvous node id to the
position of a peer.
-/

import Yip.Epoch
import Yip.Lib.IndexTable
import Yip.Path

namespace Yip

open Crypto Transport List

def handshakeRetryMs : Nat := 1000

def handshakeTotalMs : Nat := 90000

def lookupIntervalMs : Nat := 1000

def maxPendingTun : Nat := 16

/-- The order of keys that decides a glare. -/
def keyBefore (first second : Key) : Bool :=
  first.map Byte.toNat < second.map Byte.toNat

/-! ### Peers -/

/-- A handshake this side began. -/
structure HandshakingState (env : Primitives) where
  hs : env.noise.HandshakeState
  startedMs : Nat
  lastSentMs : Nat
  retryMs : Nat
  initPkt : List Byte
  target : SocketAddr
  viaRelay : Bool

/-- A peer has no session, is in a handshake, or has a session. -/
inductive PeerState (env : Primitives) where
  | idle
  | handshaking (handshaking : HandshakingState env)
  | established (epochs : EpochSet env)

namespace PeerState

variable {env : Primitives}

def isIdle : PeerState env → Bool
  | idle => true
  | handshaking _ | established _ => false

def isHandshaking : PeerState env → Bool
  | handshaking _ => true
  | idle | established _ => false

def isEstablished : PeerState env → Bool
  | established _ => true
  | idle | handshaking _ => false

variable {state : PeerState env}

theorem isIdle_iff : state.isIdle = true ↔ state = .idle := by
  cases state <;> simp [isIdle]

theorem isEstablished_iff : state.isEstablished = true ↔ ∃ epochs, state = .established epochs := by
  cases state <;> simp [isEstablished]

end PeerState

/-- What the manager knows of a peer. -/
structure Peer (env : Primitives) where
  pubkey : Key
  endpoint : Option SocketAddr
  state : PeerState env
  pendingTun : List (List Byte)
  cachedResp : Option (List Byte)
  cachedRespInitEph : Option (List Byte)
  lastAcceptedInitTs : Option Nat
  admittedCertNotAfter : Option Nat
  isStatic : Bool
  path : PathState
  relay : Bool
  lastLookupMs : Option Nat

namespace Peer

variable {env : Primitives}

def new (pubkey : Key) (endpoint : Option SocketAddr) (isStatic : Bool) (path : PathState) :
    Peer env where
  pubkey := pubkey
  endpoint := endpoint
  state := .idle
  pendingTun := []
  cachedResp := none
  cachedRespInitEph := none
  lastAcceptedInitTs := none
  admittedCertNotAfter := none
  isStatic := isStatic
  path := path
  relay := false
  lastLookupMs := none

def addr (peer : Peer env) : Nat := env.nodeAddr peer.pubkey

def node (peer : Peer env) : Nat := env.nodeId peer.pubkey

/-- Keeps a packet for the session to come; the oldest goes when there are too many. -/
def pushPending (peer : Peer env) (inner : List Byte) : Peer env :=
  { peer with
    pendingTun :=
      (if peer.pendingTun.length ≥ maxPendingTun then peer.pendingTun.drop 1
        else peer.pendingTun) ++ [inner] }

end Peer

/-! ### The manager -/

/-- The keys of a new epoch, for the other workers. -/
structure SessionEpochMsg where
  peerPk : Key
  sendKey : Key
  recvKey : Key
  authKey : Key
  hpKey : Key
  endpoint : Option SocketAddr
  deriving DecidableEq, Repr

/-- The clocks and the random draws of one call. -/
structure Moment where
  nowMs : Nat
  nowSecs : Nat
  nowTai64n : Nat
  respSeed : Nat
  initSeed : Nat → Nat
  jitter : Nat → Nat → Nat

/-- What a call hands back: a packet for the device and datagrams to send. -/
structure DispatchOut where
  tun : Option (List Byte)
  udp : List EgressDatagram
  deriving DecidableEq, Repr

def DispatchOut.none : DispatchOut := ⟨Option.none, []⟩

/-- The peers and the three tables that find them. -/
structure PeerManager (env : Primitives) where
  localPriv : Key
  localPub : Key
  l2 : Bool
  peers : List (Peer env)
  byTag : Nat → Option Nat
  byAddr : Nat → Option Nat
  byNode : Nat → Option Nat
  rendezvous : Option env.rendezvous.Client
  membership : Option env.mesh.Membership
  obfOn : Bool
  dataSymbolSize : Nat
  isRelayOnly : Bool
  rekeyIntervalMs : Nat
  lastCertSweepMs : Nat
  bootFloorTs : Nat
  shardId : Nat
  numShards : Nat
  newEpochs : List SessionEpochMsg
  redundancyPct : Nat

namespace PeerManager

variable {env : Primitives}

def modifyPeer (pm : PeerManager env) (idx : Nat) (f : Peer env → Peer env) : PeerManager env :=
  { pm with peers := pm.peers.modify idx f }

def position (pm : PeerManager env) (property : Peer env → Bool) : Option Nat :=
  pm.peers.findIdx? property

def serverAddr (pm : PeerManager env) : SocketAddr :=
  match pm.rendezvous with
  | some client => env.rendezvous.serverAddr client
  | none => ⟨0, 0⟩

def startPath (pm : PeerManager env) (endpoints : List SocketAddr) (nowMs : Nat) : PathState :=
  let path :=
    if pm.isRelayOnly then PathState.relayOnly nowMs
    else PathState.new (!endpoints.isEmpty) pm.rendezvous.isSome nowMs
  endpoints.foldl PathState.onDirectAddr path

/-- Appends a peer and enters it into the tables by address and by node. -/
def pushPeer (pm : PeerManager env) (peer : Peer env) : PeerManager env :=
  let idx := pm.peers.length
  { pm with
    byAddr := Function.update pm.byAddr peer.addr (some idx)
    byNode := Function.update pm.byNode peer.node (some idx)
    peers := pm.peers ++ [peer] }

def admitMember (pm : PeerManager env) (pubkey : Key) (endpoints : List SocketAddr) (nowMs : Nat) :
    PeerManager env :=
  if pubkey = pm.localPub ∨ pm.peers.any (fun peer => peer.pubkey = pubkey) then pm
  else
    pm.pushPeer (Peer.new pubkey endpoints.head? false (pm.startPath endpoints nowMs))

structure Config (env : Primitives) where
  localPriv : Key
  localPub : Key
  peers : List (Key × Option SocketAddr)
  l2 : Bool
  rendezvous : Option env.rendezvous.Client
  membership : Option env.mesh.Membership
  relayOnly : Bool
  obfOn : Bool
  dataSymbolSize : Nat
  rekeyIntervalMs : Nat
  bootFloorTs : Nat
  shardId : Nat
  numShards : Nat
  redundancyPct : Nat

def empty (config : Config env) : PeerManager env where
  localPriv := config.localPriv
  localPub := config.localPub
  l2 := config.l2
  peers := []
  byTag := fun _ => none
  byAddr := fun _ => none
  byNode := fun _ => none
  rendezvous := config.rendezvous
  membership := config.membership
  obfOn := config.obfOn
  dataSymbolSize := config.dataSymbolSize
  isRelayOnly := config.relayOnly
  rekeyIntervalMs := config.rekeyIntervalMs
  lastCertSweepMs := 0
  bootFloorTs := config.bootFloorTs
  shardId := config.shardId
  numShards := config.numShards
  newEpochs := []
  redundancyPct := config.redundancyPct

def configure (pm : PeerManager env) (peer : Key × Option SocketAddr) : PeerManager env :=
  pm.pushPeer (Peer.new peer.1 peer.2 true (pm.startPath peer.2.toList 0))

/-- A manager with the configured peers and the roots of the mesh. -/
def new (config : Config env) : PeerManager env :=
  let roots := (config.membership.map env.mesh.roots).getD []
  roots.foldl (fun pm root => pm.admitMember root.1 [root.2] 0)
    (config.peers.foldl configure (empty config))

def addPeer (pm : PeerManager env) (pubkey : Key) (endpoint : Option SocketAddr) :
    Except String (PeerManager env) :=
  if (pm.byNode (env.nodeId pubkey)).isSome then .error "peer already exists"
  else .ok (pm.pushPeer (Peer.new pubkey endpoint false (pm.startPath endpoint.toList 0)))

/-! ### Sessions in the tables -/

/-- The tags under which a peer's session is found. -/
def liveTags : PeerState env → List Nat
  | .established epochs =>
    epochs.current.connTag :: ((epochs.next.map (·.dp.connTag)).toList ++
      (epochs.previous.map (·.connTag)).toList)
  | .idle | .handshaking _ => []

def removeTags (byTag : Nat → Option Nat) (tags : List Nat) : Nat → Option Nat :=
  fun tag => if tag ∈ tags then none else byTag tag

/-- Ends a session and takes its tags out of the table. -/
def dropSession (pm : PeerManager env) (idx : Nat) : PeerManager env :=
  match pm.peers[idx]? with
  | none => pm
  | some peer =>
    { pm with byTag := removeTags pm.byTag (liveTags peer.state) }.modifyPeer idx fun peer =>
      { peer with state := .idle, admittedCertNotAfter := none }

def removePeer (pm : PeerManager env) (pubkey : Key) : Except String (PeerManager env) :=
  match pm.byNode (env.nodeId pubkey) with
  | none => .error "peer not found"
  | some idx =>
    let pm := pm.dropSession idx
    let byNode := Function.update pm.byNode (env.nodeId pubkey) none
    let byAddr := Function.update pm.byAddr (env.nodeAddr pubkey) none
    .ok
      { pm with
        peers := pm.peers.eraseIdx idx
        byNode := fun node => (byNode node).map (IndexTable.shiftDown idx)
        byAddr := fun addr => (byAddr addr).map (IndexTable.shiftDown idx)
        byTag := fun tag => (pm.byTag tag).map (IndexTable.shiftDown idx) }

def epochMsg (peer : Peer env) (dp : DataPlane env) : SessionEpochMsg :=
  ⟨peer.pubkey, dp.rawSendKey, dp.rawRecvKey, dp.authKey, dp.hpKey, peer.endpoint⟩

/-- The data plane of one worker among several counts in strides. -/
def strided (pm : PeerManager env) (dp : DataPlane env) : DataPlane env :=
  if pm.numShards > 1 then
    { dp with session := dp.session.setStride pm.shardId pm.numShards }.setShard
      pm.shardId pm.numShards
  else dp

def recordNewEpoch (pm : PeerManager env) (idx : Nat) : PeerManager env :=
  match pm.peers[idx]? with
  | none => pm
  | some peer =>
    match peer.state with
    | .idle | .handshaking _ => pm
    | .established epochs =>
      let current := pm.strided epochs.current
      { pm with newEpochs := pm.newEpochs ++ [epochMsg peer current] }.modifyPeer idx fun peer =>
        { peer with state := .established { epochs with current := current } }

def drainNewEpochs (pm : PeerManager env) : PeerManager env × List SessionEpochMsg :=
  ({ pm with newEpochs := [] }, pm.newEpochs)

def dataPlane (pm : PeerManager env) (established : Established) (peerAddr : SocketAddr) :
    DataPlane env :=
  DataPlane.new env established (connTagFromKeys established.authKey established.hpKey) pm.l2
    peerAddr pm.obfOn pm.dataSymbolSize

/-- The session of another worker, taken over. -/
def installEstablishedSession (pm : PeerManager env) (peerPk : Key) (established : Established)
    (endpoint : Option SocketAddr) : PeerManager env :=
  let pm :=
    if pm.peers.any (fun peer => peer.pubkey = peerPk) then pm
    else pm.admitMember peerPk endpoint.toList 0
  match pm.position fun peer => peer.pubkey = peerPk with
  | none => pm
  | some idx =>
    let known := (pm.peers[idx]?).bind (·.endpoint)
    let dp := pm.dataPlane established ((endpoint.or known).getD ⟨0, 0⟩)
    let dp := if pm.numShards > 1 then dp.setShard pm.shardId pm.numShards else dp
    { pm with
      byTag := Function.update pm.byTag dp.connTag (some idx)
      byAddr := Function.update pm.byAddr (env.nodeAddr peerPk) (some idx) }.modifyPeer idx
        fun peer =>
          { peer with
            endpoint := endpoint.or peer.endpoint
            path := (endpoint.toList.foldl PathState.onDirectAddr peer.path).committed
            state := .established ((EpochSet.new dp 0).setFecRepairRatio pm.redundancyPct) }

/-! ### The relay and the membership -/

def relayWrap (pm : PeerManager env) (peer : Peer env) (raw : List Byte) : Option EgressDatagram :=
  pm.rendezvous.map fun client =>
    env.rendezvous.relay client (env.nodeId pm.localPub) peer.node raw

def maybeLookup (pm : PeerManager env) (idx nowMs : Nat) : PeerManager env × List EgressDatagram :=
  match pm.peers[idx]?, pm.rendezvous with
  | some peer, some client =>
    if peer.lastLookupMs.all fun last => nowMs - last ≥ lookupIntervalMs then
      (pm.modifyPeer idx fun peer => { peer with lastLookupMs := some nowMs },
        [env.rendezvous.lookup client peer.node])
    else (pm, [])
  | _, _ => (pm, [])

def ownCert (pm : PeerManager env) : List Byte :=
  (pm.membership.map env.mesh.ownCertBytes).getD []

/-- Whether the certificate admits the peer; without a mesh everyone is admitted. -/
def responderCertOk (pm : PeerManager env) (payload : List Byte) (peerPub : Key) (nowSecs : Nat) :
    Bool :=
  match pm.membership with
  | none => true
  | some membership =>
    (env.mesh.decodeCert payload).any fun cert =>
      env.mesh.verifyCert membership cert peerPub nowSecs

def isRoot (pm : PeerManager env) (pubkey : Key) : Bool :=
  pm.membership.any fun membership =>
    (env.mesh.roots membership).any fun root => root.1 = pubkey

/-- Whether an Init is newer than the last one accepted, or than the start. -/
def acceptFreshInit (pm : PeerManager env) (peer : Peer env) (ts : Nat) : Bool :=
  match peer.lastAcceptedInitTs with
  | none => pm.bootFloorTs < ts
  | some last => last < ts

/-! ### Peers after an update -/

theorem getElem?_modifyPeer (pm : PeerManager env) (idx : Nat) (f : Peer env → Peer env)
    (position : Nat) :
    (pm.modifyPeer idx f).peers[position]? =
      (pm.peers[position]?).map fun peer => if idx = position then f peer else peer :=
  getElem?_modify f idx pm.peers position

@[simp]
theorem getElem?_modifyPeer_self (pm : PeerManager env) (idx : Nat) (f : Peer env → Peer env) :
    (pm.modifyPeer idx f).peers[idx]? = (pm.peers[idx]?).map f := by
  simp only [getElem?_modifyPeer, if_true]

variable {peer : Peer env} {pm : PeerManager env} {idx : Nat} {property : Peer env → Bool}

theorem modifyPeer_cases {position : Nat} {f : Peer env → Peer env}
    (holds : (pm.modifyPeer idx f).peers[position]? = some peer) :
    ∃ old, pm.peers[position]? = some old ∧ (peer = old ∨ idx = position ∧ peer = f old) := by
  rw [getElem?_modifyPeer] at holds
  obtain ⟨old, had, same⟩ := Option.map_eq_some_iff.mp holds
  refine ⟨old, had, ?_⟩
  by_cases here : idx = position
  · exact Or.inr ⟨here, by rw [← same, if_pos here]⟩
  · exact Or.inl (by rw [← same, if_neg here])

theorem modifyPeer_eq_self {f : Peer env → Peer env} (holds : pm.peers[idx]? = some peer)
    (fixed : f peer = peer) : pm.modifyPeer idx f = pm := by
  have peers : pm.peers.modify idx f = pm.peers := by
    apply ext_getElem?
    intro position
    rw [getElem?_modify]
    by_cases same : idx = position
    · subst same
      rw [holds]
      simp [fixed]
    · simp [same]
  unfold modifyPeer
  rw [peers]

theorem dropSession_getElem?_of_ne (pm : PeerManager env) {other : Nat} (apart : other ≠ idx) :
    (pm.dropSession idx).peers[other]? = pm.peers[other]? := by
  unfold dropSession
  split
  · rfl
  · rw [getElem?_modifyPeer]
    simp [apart.symm]

theorem position_eq_some (found : pm.position property = some idx) :
    ∃ peer, pm.peers[idx]? = some peer ∧ property peer = true := by
  obtain ⟨bound, holds, _⟩ := findIdx?_eq_some_iff_getElem.mp found
  exact ⟨_, getElem?_eq_getElem bound, holds⟩

theorem position_eq_none (absent : pm.position property = none) (member : peer ∈ pm.peers) :
    property peer = false :=
  findIdx?_eq_none_iff.mp absent peer member

theorem new_induction (property : PeerManager env → Prop) (config : Config env)
    (base : property (empty config))
    (push : ∀ pm pubkey endpoint isStatic endpoints nowMs, property pm →
      property (pm.pushPeer (Peer.new pubkey endpoint isStatic (pm.startPath endpoints nowMs)))) :
    property (new config) := by
  have configured (peers : List (Key × Option SocketAddr)) (pm : PeerManager env)
      (holds : property pm) : property (peers.foldl configure pm) := by
    induction peers generalizing pm with
    | nil => exact holds
    | cons peer rest ih => exact ih _ (push _ _ _ _ _ _ holds)
  have admitted (roots : List (Key × SocketAddr)) (pm : PeerManager env) (holds : property pm) :
      property (roots.foldl (fun pm root => pm.admitMember root.1 [root.2] 0) pm) := by
    induction roots generalizing pm with
    | nil => exact holds
    | cons root rest ih =>
      have admits : property (pm.admitMember root.1 [root.2] 0) := by
        unfold admitMember
        split
        · exact holds
        · exact push _ _ _ _ _ _ holds
      exact ih _ admits
  exact admitted _ _ (configured _ _ base)

@[simp]
theorem byTag_modifyPeer (pm : PeerManager env) (idx : Nat) (f : Peer env → Peer env) :
    (pm.modifyPeer idx f).byTag = pm.byTag := rfl

end PeerManager

end Yip
