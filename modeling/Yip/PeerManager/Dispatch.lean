/-
This file models what the event loop calls on the peer manager: `on_udp_dispatch`,
`on_tun_dispatch` and `tick_dispatch`, with the routing (`routing.rs`), the messages of the
rendezvous server (`relay.rs`) and the gossip (`gossip.rs`) behind them.
-/

import Yip.PeerManager.Handshake

namespace Yip

open Crypto Transport

def maxGossipTargets : Nat := 4

def maxGossipReplies : Nat := 8

def Outcome.dispatch : Outcome → DispatchOut
  | none => .none
  | tunWrite inner => ⟨some inner, []⟩
  | send datagrams => ⟨Option.none, datagrams⟩

namespace Peer

variable {env : Primitives}

def moveTo (peer : Peer env) (addr : SocketAddr) : Peer env :=
  { peer with
    endpoint := some addr
    state := match peer.state with
      | .established epochs => .established (epochs.setPeerAddr addr)
      | .handshaking handshaking => .handshaking handshaking
      | .idle => .idle }

/-- Follows a peer to the IP address its datagrams come from; a port it has stays. -/
def relearnEndpoint (peer : Peer env) (src : SocketAddr) : Peer env :=
  if peer.relay then peer
  else
    match peer.endpoint with
    | some endpoint =>
      if endpoint.ip ≠ src.ip then peer.moveTo { endpoint with ip := src.ip } else peer
    | none => peer.moveTo src

theorem relearnEndpoint_cases (peer : Peer env) (src : SocketAddr) :
    peer.relearnEndpoint src = peer ∨ ∃ addr, peer.relearnEndpoint src = peer.moveTo addr := by
  unfold relearnEndpoint
  split
  · exact Or.inl rfl
  · split
    · split
      · exact Or.inr ⟨_, rfl⟩
      · exact Or.inl rfl
    · exact Or.inr ⟨src, rfl⟩

theorem moveTo_of_live {peer : Peer env} {epochs : EpochSet env}
    (live : peer.state = .established epochs) (addr : SocketAddr) :
    (peer.moveTo addr).state = .established (epochs.setPeerAddr addr) := by
  simp only [moveTo, live]

end Peer

namespace PeerManager

variable {env : Primitives}

/-! ### Data and Control datagrams -/

def openAt (pm : PeerManager env) (idx : Nat) (dg : List Byte) (nowMs : Nat) :
    PeerManager env × Outcome :=
  match pm.peers[idx]? with
  | none => (pm, .none)
  | some peer =>
    match peer.state with
    | .idle | .handshaking _ => (pm, .none)
    | .established epochs =>
      let (epochs, outcome) := epochs.inboundOpen dg nowMs
      (pm.modifyPeer idx fun peer => { peer with state := .established epochs }, outcome)

def atEndpoint (pm : PeerManager env) (src : SocketAddr) : Option Nat :=
  pm.position fun peer => peer.endpoint = some src && peer.state.isEstablished

/-- The peer a datagram is for, by its tag or else by its source. -/
def routeData (pm : PeerManager env) (src : SocketAddr) (dg : List Byte) : Option (Option Nat) :=
  if dg.length ≥ 9 ∧ dg.head? = some PacketType.data.toByte then
    match pm.byTag (ofBeBytes ((dg.drop 1).take 8)) with
    | none => some (pm.atEndpoint src)
    | some idx =>
      match pm.peers[idx]? with
      | none => none
      | some peer => if peer.state.isEstablished then some (some idx) else some (pm.atEndpoint src)
  else some (pm.atEndpoint src)

/-- Offers a datagram to the candidates in turn, until one opens it. -/
def offerEach (pm : PeerManager env) (src : SocketAddr) (dg : List Byte) (nowMs : Nat) :
    List Nat → PeerManager env × DispatchOut
  | [] => (pm, .none)
  | idx :: rest =>
    let (pm, outcome) := pm.openAt idx dg nowMs
    if outcome = .none then pm.offerEach src dg nowMs rest
    else (pm.modifyPeer idx (·.relearnEndpoint src), outcome.dispatch)

def dispatchEstablished (pm : PeerManager env) (idx : Nat) (src : SocketAddr) (dg : List Byte)
    (nowMs : Nat) : PeerManager env × DispatchOut :=
  pm.offerEach src dg nowMs [idx]

def positions (pm : PeerManager env) (property : Peer env → Bool) : List Nat :=
  (List.range pm.peers.length).filter fun idx => (pm.peers[idx]?).any property

def handleDataOrControl (pm : PeerManager env) (src : SocketAddr) (dg : List Byte) (nowMs : Nat) :
    Option (PeerManager env × DispatchOut) :=
  (pm.routeData src dg).map fun route =>
    match route with
    | some idx => pm.dispatchEstablished idx src dg nowMs
    | none => pm.offerEach src dg nowMs (pm.positions (·.state.isEstablished))

/-! ### Gossip -/

def answerGossip (pm : PeerManager env) (idx : Nat) (dst : SocketAddr) (viaRelay : Bool)
    (dg : List Byte) (nowSecs : Nat) : PeerManager env × DispatchOut :=
  match pm.peers[idx]?, env.mesh.decodeGossip (dg.drop 1), pm.membership with
  | some peer, some msg, some membership =>
    let (membership, replies) := env.mesh.onGossip membership msg nowSecs
    ({ pm with membership := some membership },
      ⟨none, pm.pushEgress peer viaRelay ((replies.take maxGossipReplies).map fun reply =>
        ⟨0, dst, PacketType.gossip.toByte :: env.mesh.encodeGossip reply⟩)⟩)
  | _, _, _ => (pm, .none)

def onGossip (pm : PeerManager env) (src : SocketAddr) (dg : List Byte) (nowSecs : Nat) :
    PeerManager env × DispatchOut :=
  match pm.atEndpoint src with
  | none => (pm, .none)
  | some idx => pm.answerGossip idx src ((pm.peers[idx]?).any (·.relay)) dg nowSecs

def relayedGossip (pm : PeerManager env) (idx : Nat) (dg : List Byte) (nowSecs : Nat) :
    PeerManager env × DispatchOut :=
  if (pm.peers[idx]?).any (·.state.isEstablished) then
    pm.answerGossip idx pm.serverAddr true dg nowSecs
  else (pm, .none)

/-- Whom to gossip with: peers with a session, then the roots. -/
def gossipTargets (pm : PeerManager env) : List (SocketAddr × Option (Peer env)) :=
  let sessions := (pm.peers.filter (·.state.isEstablished)).filterMap fun peer =>
    if peer.relay then some (pm.serverAddr, some peer) else peer.endpoint.map (·, none)
  let roots := ((pm.membership.map env.mesh.roots).getD []).map fun root => (root.2, none)
  (sessions ++ roots).take maxGossipTargets

def tickGossip (pm : PeerManager env) (moment : Moment) : PeerManager env × List EgressDatagram :=
  match pm.membership with
  | none => (pm, [])
  | some membership =>
    let (membership, digests) := env.mesh.tickDigest membership moment.nowMs pm.obfOn
    let pm := { pm with membership := some membership }
    let sent := digests.flatMap fun digest => pm.gossipTargets.filterMap fun (dst, relayed) =>
      let bytes := PacketType.gossip.toByte :: env.mesh.encodeGossip digest
      match relayed with
      | some peer => pm.relayWrap peer bytes
      | none => some ⟨0, dst, bytes⟩
    if pm.peers.any (·.state.isEstablished) then (pm, sent)
    else
      let probe := (env.mesh.roots membership).findSome? fun (_, addr) =>
        (pm.position fun peer => peer.endpoint = some addr && peer.state.isIdle).map (·, addr)
      match probe with
      | none => (pm, sent)
      | some (idx, addr) =>
        let (pm, inits) := pm.beginHandshake idx addr false moment
        (pm, sent ++ inits)

/-! ### The rendezvous server -/

def relayedData (pm : PeerManager env) (idx : Nat) (dg : List Byte) (nowMs : Nat) :
    PeerManager env × DispatchOut :=
  match pm.peers[idx]? with
  | none => (pm, .none)
  | some peer =>
    let (pm, outcome) := pm.openAt idx dg nowMs
    let out := outcome.dispatch
    (pm, { out with udp := pm.pushEgress peer true out.udp })

def onRelayed (pm : PeerManager env) (srcNode : Nat) (payload : List Byte) (moment : Moment) :
    PeerManager env × DispatchOut :=
  match payload.head?, pm.byNode srcNode with
  | some kind, some idx =>
    let pm := pm.modifyPeer idx fun peer =>
      { peer with relay := peer.relay || !peer.state.isEstablished }
    if kind = PacketType.handshakeInit.toByte then pm.relayedHandshakeInit idx payload moment
    else if kind = PacketType.handshakeResp.toByte then pm.relayedHandshakeResp idx payload moment
    else if pm.membership.isSome ∧ kind = PacketType.gossip.toByte then
      pm.relayedGossip idx payload moment.nowSecs
    else pm.relayedData idx payload moment.nowMs
  | _, _ => (pm, .none)

def onPeerCandidate (pm : PeerManager env) (node : Nat) (addr : SocketAddr)
    (record : Option env.mesh.Record) (moment : Moment) : PeerManager env :=
  let endpoints := match pm.membership, record with
    | some membership, some record =>
      if env.mesh.recordNode record = node ∧
          env.mesh.verifyRecord membership record moment.nowSecs then
        addr :: (env.mesh.recordEndpoints record).reverse
      else []
    | _, _ => [addr]
  match pm.byNode node with
  | none => pm
  | some idx => pm.modifyPeer idx fun peer =>
    if peer.state.isEstablished then peer
    else
      { peer with
        path := endpoints.foldl (fun path addr => path.onPeerCandidate addr moment.nowMs)
          peer.path }

/-- The rendezvous asks for a datagram to a peer that wants in. -/
def onPunchTo (pm : PeerManager env) (node : Nat) (addr : SocketAddr) (moment : Moment) :
    PeerManager env × DispatchOut :=
  match pm.byNode node with
  | none => (pm, .none)
  | some idx =>
    match pm.peers[idx]? with
    | none => (pm, .none)
    | some peer =>
      let verified := pm.membership.all fun membership =>
        peer.isStatic || env.mesh.memberCertValid membership peer.pubkey moment.nowSecs
      if peer.state.isEstablished || !verified then (pm, .none)
      else
        let pm := pm.modifyPeer idx fun peer =>
          { peer with path := peer.path.onPeerCandidate addr moment.nowMs }
        if peer.state.isIdle then
          let (pm, inits) := pm.beginHandshake idx addr false moment
          (pm, ⟨none, inits⟩)
        else (pm, .none)

def onRdv (pm : PeerManager env) (dg : List Byte) (moment : Moment) :
    PeerManager env × DispatchOut :=
  match pm.rendezvous with
  | none => (pm, .none)
  | some client =>
    match env.rendezvous.parse client dg with
    | .peerCandidate node addr record => (pm.onPeerCandidate node addr record moment, .none)
    | .punchTo node addr => pm.onPunchTo node addr moment
    | .relayed src payload => pm.onRelayed src payload moment
    | .notFound _ | .ignored => (pm, .none)

/-- A datagram from the socket; `none` stands for a panic. -/
def onUdpDispatch (pm : PeerManager env) (src : SocketAddr) (dg : List Byte) (moment : Moment) :
    Option (PeerManager env × DispatchOut) :=
  match dg with
  | [] => some (pm, .none)
  | kind :: _ =>
    if pm.rendezvous.isSome ∧ src = pm.serverAddr then some (pm.onRdv dg moment)
    else if kind = PacketType.handshakeInit.toByte then some (pm.handleHandshakeInit src dg moment)
    else if kind = PacketType.handshakeResp.toByte then some (pm.handleHandshakeResp src dg moment)
    else if pm.membership.isSome ∧ kind = PacketType.gossip.toByte then
      some (pm.onGossip src dg moment.nowSecs)
    else pm.handleDataOrControl src dg moment.nowMs

/-! ### Packets of the TUN device -/

def ipv6Dst (inner : List Byte) : Option Nat :=
  if inner.length < 40 ∨ (inner.headD 0).toNat / 16 ≠ 6 then none
  else some (ofBeBytes ((inner.drop 24).take 16))

def solePeer (pm : PeerManager env) : Option Nat :=
  if pm.peers.length = 1 then some 0 else none

def routeTunIndex (pm : PeerManager env) (inner : List Byte) : Option Nat :=
  if pm.l2 then pm.solePeer
  else
    match ipv6Dst inner with
    | some dst => (pm.byAddr dst).or (if pm.membership.isNone then pm.solePeer else none)
    | none => pm.solePeer

def followPath (pm : PeerManager env) (idx : Nat) (action : PathAction) (moment : Moment) :
    PeerManager env × List EgressDatagram :=
  match action with
  | .probe addr => pm.beginHandshake idx addr false moment
  | .relay => pm.beginHandshake idx pm.serverAddr true moment
  | .needLookup => pm.maybeLookup idx moment.nowMs
  | .idle | .failed => (pm, [])

def advancePath (pm : PeerManager env) (idx nowMs : Nat) : PeerManager env × PathAction :=
  match pm.peers[idx]? with
  | none => (pm, .idle)
  | some peer =>
    let (path, action) := peer.path.advance nowMs
    (pm.modifyPeer idx fun peer => { peer with path := path }, action)

/-- Sends a packet to a peer, or keeps it until there is a session. -/
def sendTo (pm : PeerManager env) (idx : Nat) (inner : List Byte) (moment : Moment) :
    PeerManager env × List EgressDatagram :=
  match pm.peers[idx]? with
  | none => (pm, [])
  | some peer =>
    match peer.state with
    | .established epochs =>
      let (current, sent) := epochs.current.onTunPacket inner moment.nowMs
      (pm.modifyPeer idx fun peer =>
        { peer with state := .established { epochs with current := current } },
        pm.pushEgress peer peer.relay sent)
    | .handshaking _ => (pm.modifyPeer idx (·.pushPending inner), [])
    | .idle =>
      let pm := pm.modifyPeer idx (·.pushPending inner)
      let (pm, action) :=
        if pm.rendezvous.isSome then pm.advancePath idx moment.nowMs
        else (pm, peer.endpoint.elim .idle .probe)
      pm.followPath idx action moment

def onTunDispatch (pm : PeerManager env) (inner : List Byte) (moment : Moment) :
    PeerManager env × List EgressDatagram :=
  match pm.routeTunIndex inner with
  | some idx => pm.sendTo idx inner moment
  | none =>
    match (pm.membership.bind fun membership =>
        (ipv6Dst inner).bind (env.mesh.resolve membership)) with
    | none => (pm, [])
    | some (pubkey, endpoints) =>
      let pm := pm.admitMember pubkey endpoints moment.nowMs
      match pm.routeTunIndex inner with
      | some idx => pm.sendTo idx inner moment
      | none => (pm, [])

/-! ### The timer -/

/-- A handshake whose path moved on is begun again there. -/
def tickPath (pm : PeerManager env) (idx : Nat) (target : SocketAddr) (moment : Moment) :
    PeerManager env × List EgressDatagram × Bool :=
  let (pm, action) := pm.advancePath idx moment.nowMs
  match action with
  | .relay =>
    let pm := pm.modifyPeer idx fun peer => { peer with state := .idle, endpoint := none }
    let (pm, inits) := pm.beginHandshake idx pm.serverAddr true moment
    (pm, inits, true)
  | .probe addr =>
    if addr ≠ target then
      let pm := pm.modifyPeer idx fun peer => { peer with state := .idle, relay := false }
      let (pm, inits) := pm.beginHandshake idx addr false moment
      (pm, inits, true)
    else (pm, [], false)
  | .needLookup =>
    let (pm, lookups) := pm.maybeLookup idx moment.nowMs
    (pm, lookups, false)
  | .idle | .failed => (pm, [], false)

/-- Retries, timeouts and rekeys of one peer. -/
def tickState (pm : PeerManager env) (idx : Nat) (moment : Moment) :
    PeerManager env × List EgressDatagram :=
  match pm.peers[idx]? with
  | none => (pm, [])
  | some peer =>
    match peer.state with
    | .established epochs =>
      let (epochs, inits) :=
        pm.driveRekeySchedule idx peer (epochs.retirePreviousIfDue moment.nowMs) moment
      let (current, packet) :=
        epochs.current.tick moment.nowMs (moment.jitter idx feedbackIntervalBase)
      (pm.modifyPeer idx fun peer =>
        { peer with state := .established { epochs with current := current } },
        inits ++ pm.pushEgress peer peer.relay packet.toList)
    | .handshaking handshaking =>
      if moment.nowMs - handshaking.lastSentMs < handshaking.retryMs then (pm, [])
      else if moment.nowMs - handshaking.startedMs ≥ handshakeTotalMs then
        (pm.modifyPeer idx fun peer => { peer with pendingTun := [], state := .idle }, [])
      else
        (pm.modifyPeer idx fun peer =>
          { peer with
            state := .handshaking
              { handshaking with
                lastSentMs := moment.nowMs
                retryMs := pm.retryMs idx moment } },
          pm.pushEgress peer peer.relay [⟨0, handshaking.target, handshaking.initPkt⟩])
    | .idle => (pm, [])

def tickPeer (pm : PeerManager env) (idx : Nat) (moment : Moment) :
    PeerManager env × List EgressDatagram :=
  match (pm.peers[idx]?).map Peer.state with
  | some (.handshaking handshaking) =>
    if pm.rendezvous.isSome && !handshaking.viaRelay then
      let (pm, sent, done) := pm.tickPath idx handshaking.target moment
      if done then (pm, sent)
      else
        let (pm, later) := pm.tickState idx moment
        (pm, sent ++ later)
    else pm.tickState idx moment
  | _ => pm.tickState idx moment

def drivePathIdle (pm : PeerManager env) (idx : Nat) (moment : Moment) :
    PeerManager env × List EgressDatagram :=
  if pm.rendezvous.isSome && (pm.peers[idx]?).any (·.state.isIdle) then
    let (pm, action) := pm.advancePath idx moment.nowMs
    pm.followPath idx action moment
  else (pm, [])

def forEach (act : PeerManager env → Nat → PeerManager env × List EgressDatagram)
    (pm : PeerManager env) : List Nat → PeerManager env × List EgressDatagram
  | [] => (pm, [])
  | idx :: rest =>
    let (pm, sent) := act pm idx
    let (pm, later) := forEach act pm rest
    (pm, sent ++ later)

def sweepCerts (pm : PeerManager env) (moment : Moment) : PeerManager env :=
  match pm.membership with
  | none => pm
  | some membership =>
    if moment.nowMs - pm.lastCertSweepMs < pm.rekeyIntervalMs then pm
    else
      let stale := pm.positions fun peer =>
        peer.state.isEstablished && !env.mesh.memberOrAdmittedCertValid membership peer.pubkey
          peer.admittedCertNotAfter moment.nowSecs
      stale.foldl dropSession { pm with lastCertSweepMs := moment.nowMs }

def tickDispatch (pm : PeerManager env) (moment : Moment) :
    PeerManager env × List EgressDatagram :=
  let everyone := List.range pm.peers.length
  let (pm, sent) := pm.forEach (fun pm idx => pm.tickPeer idx moment) everyone
  let (pm, paths) := pm.forEach (fun pm idx => pm.drivePathIdle idx moment) everyone
  let (pm, gossip) := pm.tickGossip moment
  (pm.sweepCerts moment, sent ++ paths ++ gossip)

/-! ### Events -/

/-- The calls of the event loop. -/
inductive Event where
  | udp (src : SocketAddr) (dg : List Byte) (moment : Moment)
  | tun (inner : List Byte) (moment : Moment)
  | tick (moment : Moment)
  | addPeer (pubkey : Key) (endpoint : Option SocketAddr)
  | admitMember (pubkey : Key) (endpoints : List SocketAddr) (nowMs : Nat)
  | removePeer (pubkey : Key)
  | drainNewEpochs

def step (pm : PeerManager env) : Event → PeerManager env
  | .udp src dg moment => ((pm.onUdpDispatch src dg moment).map Prod.fst).getD pm
  | .tun inner moment => (pm.onTunDispatch inner moment).1
  | .tick moment => (pm.tickDispatch moment).1
  | .addPeer pubkey endpoint => (pm.addPeer pubkey endpoint).toOption.getD pm
  | .admitMember pubkey endpoints nowMs => pm.admitMember pubkey endpoints nowMs
  | .removePeer pubkey => (pm.removePeer pubkey).toOption.getD pm
  | .drainNewEpochs => pm.drainNewEpochs.1

end PeerManager

/-! ### An executable manager -/

namespace Transparent

def moment (nowMs nowSecs nowTai64n seed : Nat) : Moment :=
  ⟨nowMs, nowSecs, nowTai64n, seed, fun _ => seed, fun _ base => base⟩

def key (number : Nat) : Key := [Byte.ofNat number]

def config (own : Nat) (others : List Nat) (membership : Option Nat) (shardId numShards : Nat) :
    PeerManager.Config (primitives .bulk) where
  localPriv := key own
  localPub := key own
  peers := others.map fun number => (key number, some ⟨number, number⟩)
  l2 := true
  rendezvous := none
  membership := membership
  relayOnly := false
  obfOn := false
  dataSymbolSize := 1200
  rekeyIntervalMs := rekeyIntervalMs
  bootFloorTs := 0
  shardId := shardId
  numShards := numShards
  redundancyPct := 0

def manager (own : Nat) (others : List Nat) (membership : Option Nat) (shardId numShards : Nat) :
    PeerManager (primitives .bulk) :=
  PeerManager.new (config own others membership shardId numShards)

def init (own seed nowTai64n : Nat) (cert : List Byte) : List Byte :=
  PacketType.handshakeInit.toByte ::
    (toBeBytes 32 seed ++ key own ++ frameInitPayload nowTai64n cert)

def firstData (round : Nat) (inner : List Byte) : List Byte :=
  (((dataPlane .bulk true round 1200).onTunPacket inner 0).2.head?.map (·.bytes)).getD []

end Transparent

end Yip
