/-
This file models the handshakes of the peer manager: the cold start
(`peer_manager/handshake.rs`), the rekey of a live session (`peer_manager/rekey.rs`) and their
relayed counterparts (`peer_manager/relay.rs`).
-/

import Yip.PeerManager.Basic

namespace Yip.PeerManager

open Crypto Transport

variable {env : Primitives}

def retryMs (pm : PeerManager env) (idx : Nat) (moment : Moment) : Nat :=
  if pm.obfOn then moment.jitter idx handshakeRetryMs else handshakeRetryMs

def pushEgress (pm : PeerManager env) (peer : Peer env) (viaRelay : Bool)
    (datagrams : List EgressDatagram) : List EgressDatagram :=
  if viaRelay then datagrams.filterMap fun datagram => pm.relayWrap peer datagram.bytes
  else datagrams

def sessionAddr (pm : PeerManager env) (viaRelay : Bool) (direct : SocketAddr) : SocketAddr :=
  if viaRelay then pm.serverAddr else direct

def startInitiator (pm : PeerManager env) (pubkey : Key) (seed nowTai64n : Nat) :
    Option (env.noise.HandshakeState × List Byte) :=
  HandshakeState.startInitiator env pm.localPriv pubkey
    (frameInitPayload nowTai64n pm.ownCert) seed

/-- Sends an Init to a peer without a session. -/
def beginHandshake (pm : PeerManager env) (idx : Nat) (target : SocketAddr) (viaRelay : Bool)
    (moment : Moment) : PeerManager env × List EgressDatagram :=
  match pm.peers[idx]? with
  | none => (pm, [])
  | some peer =>
    match pm.startInitiator peer.pubkey (moment.initSeed idx) moment.nowTai64n with
    | none => (pm, [])
    | some (hs, initPkt) =>
      match pm.pushEgress peer viaRelay [⟨0, target, initPkt⟩] with
      | [] => (pm, [])
      | datagrams =>
        (pm.modifyPeer idx fun peer =>
          { peer with
            relay := viaRelay || peer.relay
            endpoint := if viaRelay then peer.endpoint else some target
            state := .handshaking
              { hs := hs
                startedMs := moment.nowMs
                lastSentMs := moment.nowMs
                retryMs := pm.retryMs idx moment
                initPkt := initPkt
                target := target
                viaRelay := viaRelay } },
          datagrams)

/-! ### Into a session -/

def drainPending (dp : DataPlane env) (nowMs : Nat) :
    List (List Byte) → DataPlane env × List EgressDatagram
  | [] => (dp, [])
  | inner :: rest =>
    let (dp, sent) := dp.onTunPacket inner nowMs
    let (dp, later) := drainPending dp nowMs rest
    (dp, sent ++ later)

def startSession (pm : PeerManager env) (idx : Nat) (established : Established)
    (peerAddr : SocketAddr) (viaRelay : Bool) (nowMs : Nat) :
    PeerManager env × List EgressDatagram :=
  match pm.peers[idx]? with
  | none => (pm, [])
  | some peer =>
    let dp := pm.dataPlane established peerAddr
    let (drained, sent) := drainPending dp nowMs peer.pendingTun
    let epochs := EpochSet.new drained nowMs
    let epochs := if viaRelay then epochs else epochs.setFecRepairRatio pm.redundancyPct
    let pm := { pm with byTag := Function.update pm.byTag dp.connTag (some idx) }.modifyPeer idx
      fun peer => { peer with pendingTun := [], state := .established epochs }
    (pm.recordNewEpoch idx, pm.pushEgress peer viaRelay sent)

/-! ### Inits -/

/-- What an Init says, with the session and the answer it leads to. -/
structure InitRead where
  established : Established
  respPkt : List Byte
  remoteStatic : Key
  initTs : Nat
  cert : List Byte
  initEph : Option (List Byte)

def readInit (pm : PeerManager env) (dg : List Byte) (moment : Moment) : Option InitRead := do
  let (established, respPkt, remoteStatic, payload) ←
    HandshakeState.startResponder env pm.localPriv dg pm.ownCert moment.respSeed
  let (initTs, cert) ← parseInitPayload payload
  return ⟨established, respPkt, remoteStatic, initTs, cert, initEphemeral dg⟩

/-- Whether the certificate, or being a root, admits the peer. -/
def certAdmits (pm : PeerManager env) (payload : List Byte) (pubkey : Key) (nowSecs : Nat) : Bool :=
  pm.isRoot pubkey || pm.responderCertOk payload pubkey nowSecs

/-- Finds the sender of an Init, or admits it as a member. -/
def admitInitiator (pm : PeerManager env) (init : InitRead) (moment : Moment) :
    PeerManager env × Option Nat :=
  match pm.position fun peer => peer.pubkey = init.remoteStatic with
  | some idx => (pm, some idx)
  | none =>
    if pm.membership.isSome ∧ pm.responderCertOk init.cert init.remoteStatic moment.nowSecs then
      let pm := pm.admitMember init.remoteStatic [] moment.nowMs
      (pm, pm.position fun peer => peer.pubkey = init.remoteStatic)
    else (pm, none)

/-- An Init over a live session: answered again if it is a repetition, else keys to come. -/
def rekeyInitCore (pm : PeerManager env) (idx : Nat) (init : InitRead) (initEph : List Byte)
    (directSrc : SocketAddr) (viaRelay : Bool) : PeerManager env × DispatchOut :=
  match pm.peers[idx]? with
  | none => (pm, .none)
  | some peer =>
    let peerAddr := pm.sessionAddr viaRelay directSrc
    let reply := fun resp => ⟨none, pm.pushEgress peer viaRelay [⟨0, peerAddr, resp⟩]⟩
    if peer.cachedRespInitEph = some initEph then (pm, peer.cachedResp.elim .none reply)
    else
      match peer.state with
      | .idle | .handshaking _ => (pm, .none)
      | .established epochs =>
        match epochs.nextCachedRespFor initEph with
        | some resp => (pm, reply resp)
        | none =>
          if pm.acceptFreshInit peer init.initTs then
            let dp := pm.dataPlane init.established peerAddr
            (pm.modifyPeer idx fun peer =>
              { peer with
                state := .established (epochs.installNext dp initEph init.respPkt)
                lastAcceptedInitTs := some init.initTs },
              reply init.respPkt)
          else (pm, .none)

def renewAdmission (pm : PeerManager env) (idx : Nat) (cert : List Byte) : PeerManager env :=
  pm.modifyPeer idx fun peer =>
    { peer with
      admittedCertNotAfter :=
        ((env.mesh.decodeCert cert).map env.mesh.notAfter).or peer.admittedCertNotAfter }

/-- Notes the timestamp and the certificate of an accepted Init. -/
def keepInit (pm : PeerManager env) (idx : Nat) (init : InitRead) : PeerManager env :=
  pm.modifyPeer idx fun peer =>
    { peer with
      lastAcceptedInitTs := some init.initTs
      admittedCertNotAfter := (env.mesh.decodeCert init.cert).map env.mesh.notAfter
      cachedResp := some init.respPkt
      cachedRespInitEph := init.initEph
      path := peer.path.committed }

/-- A direct Init of a known peer. -/
def answerInit (pm : PeerManager env) (idx : Nat) (src : SocketAddr) (init : InitRead)
    (moment : Moment) : PeerManager env × DispatchOut :=
  match pm.peers[idx]? with
  | none => (pm, .none)
  | some peer =>
    let admits := pm.certAdmits init.cert init.remoteStatic moment.nowSecs
    match peer.state with
    | .established _ =>
      if peer.relay then (pm, .none)
      else if !admits then (pm.dropSession idx, .none)
      else
        let pm := pm.renewAdmission idx init.cert
        match init.initEph with
        | some initEph => pm.rekeyInitCore idx init initEph src false
        | none => (pm, .none)
    | .idle | .handshaking _ =>
      -- Both sides have sent an Init: the side with the smaller key stays the initiator.
      if peer.state.isHandshaking && keyBefore pm.localPub peer.pubkey then (pm, .none)
      else if !admits || !pm.acceptFreshInit peer init.initTs then (pm, .none)
      else
        let pm := (pm.keepInit idx init).modifyPeer idx fun peer =>
          { peer with endpoint := some src, relay := false }
        let (pm, sent) := pm.startSession idx init.established src false moment.nowMs
        (pm, ⟨none, ⟨0, src, init.respPkt⟩ :: sent⟩)

def handleHandshakeInit (pm : PeerManager env) (src : SocketAddr) (dg : List Byte)
    (moment : Moment) : PeerManager env × DispatchOut :=
  match pm.readInit dg moment with
  | none => (pm, .none)
  | some init =>
    match pm.admitInitiator init moment with
    | (pm, none) => (pm, .none)
    | (pm, some idx) => pm.answerInit idx src init moment

def relayedHandshakeInit (pm : PeerManager env) (idx : Nat) (dg : List Byte) (moment : Moment) :
    PeerManager env × DispatchOut :=
  match pm.readInit dg moment, pm.peers[idx]? with
  | some init, some peer =>
    if init.remoteStatic ≠ peer.pubkey then (pm, .none)
    else
      let admits := pm.certAdmits init.cert init.remoteStatic moment.nowSecs
      match peer.state with
      | .established _ =>
        match init.initEph with
        | none => (pm, .none)
        | some initEph =>
          if !admits then (pm.dropSession idx, .none)
          else
            let moves := !peer.relay && peer.lastAcceptedInitTs.isSome &&
              decide (peer.cachedRespInitEph ≠ some initEph) && pm.acceptFreshInit peer init.initTs
            if peer.relay || moves then
              (pm.modifyPeer idx fun peer => { peer with relay := true }).rekeyInitCore idx init
                initEph pm.serverAddr true
            else (pm, .none)
      | .idle | .handshaking _ =>
        if peer.state.isHandshaking && keyBefore pm.localPub peer.pubkey then (pm, .none)
        else if !admits || !pm.acceptFreshInit peer init.initTs then (pm, .none)
        else
          let pm := (pm.keepInit idx init).modifyPeer idx fun peer => { peer with relay := true }
          let (pm, sent) :=
            pm.startSession idx init.established pm.serverAddr true moment.nowMs
          (pm, ⟨none, pm.pushEgress peer true [⟨0, pm.serverAddr, init.respPkt⟩] ++ sent⟩)
  | _, _ => (pm, .none)

/-! ### Responses -/

/-- The answer to a rekey: its keys become current at once. -/
def rekeyRespCore (pm : PeerManager env) (idx : Nat) (dg : List Byte) (viaRelay : Bool)
    (moment : Moment) : PeerManager env × DispatchOut :=
  match pm.peers[idx]? with
  | none => (pm, .none)
  | some peer =>
    match peer.state with
    | .idle | .handshaking _ => (pm, .none)
    | .established epochs =>
      match epochs.rekey with
      | none => (pm, .none)
      | some rekey =>
        -- The round is over, whatever the response is worth.
        let taken := pm.modifyPeer idx fun peer =>
          { peer with state := .established { epochs with rekey := none } }
        match HandshakeState.readResponse env rekey.hs dg with
        | none => (taken, .none)
        | some (established, payload) =>
          if !pm.certAdmits payload peer.pubkey moment.nowSecs then (taken, .none)
          else
            let dp := pm.dataPlane established (pm.sessionAddr viaRelay rekey.target)
            let pending := if peer.pendingTun.isEmpty then [[]] else peer.pendingTun
            let (primed, sent) := drainPending dp moment.nowMs pending
            let pm := taken.renewAdmission idx payload
            let pm :=
              { pm with
                byTag := Function.update (Function.update pm.byTag epochs.current.connTag none)
                  dp.connTag (some idx) }.modifyPeer idx fun peer =>
                { peer with
                  pendingTun := []
                  state := .established (epochs.promoteFromRekey primed moment.nowMs) }
            (pm.recordNewEpoch idx, ⟨none, pm.pushEgress peer viaRelay sent⟩)

def keepResp (pm : PeerManager env) (idx : Nat) (payload : List Byte) : PeerManager env :=
  pm.modifyPeer idx fun peer =>
    { peer with
      admittedCertNotAfter := (env.mesh.decodeCert payload).map env.mesh.notAfter
      path := peer.path.committed }

def completeHandshake (pm : PeerManager env) (idx : Nat) (peerAddr : SocketAddr)
    (dg : List Byte) (viaRelay : Bool) (moment : Moment) : PeerManager env × DispatchOut :=
  match pm.peers[idx]? with
  | none => (pm, .none)
  | some peer =>
    match peer.state with
    | .idle | .established _ => (pm, .none)
    | .handshaking handshaking =>
      let reverted := pm.modifyPeer idx fun peer => { peer with state := .idle }
      match HandshakeState.readResponse env handshaking.hs dg with
      | none => (reverted, .none)
      | some (established, payload) =>
        if !pm.certAdmits payload peer.pubkey moment.nowSecs then (reverted, .none)
        else
          let pm := (reverted.keepResp idx payload).modifyPeer idx fun peer =>
            { peer with
              endpoint := if viaRelay then peer.endpoint else some peerAddr
              relay := viaRelay }
          let (pm, sent) := pm.startSession idx established peerAddr viaRelay moment.nowMs
          (pm, ⟨none, sent⟩)

def handleHandshakeResp (pm : PeerManager env) (src : SocketAddr) (dg : List Byte)
    (moment : Moment) : PeerManager env × DispatchOut :=
  let rekeying := fun peer : Peer env =>
    match peer.state with
    | .established epochs => decide (peer.endpoint = some src) && epochs.rekey.isSome && !peer.relay
    | .idle | .handshaking _ => false
  match pm.position rekeying with
  | some idx => pm.rekeyRespCore idx dg false moment
  | none =>
    match pm.position fun peer => peer.endpoint = some src && peer.state.isHandshaking with
    | some idx => pm.completeHandshake idx src dg false moment
    | none => (pm, .none)

def relayedHandshakeResp (pm : PeerManager env) (idx : Nat) (dg : List Byte) (moment : Moment) :
    PeerManager env × DispatchOut :=
  match pm.peers[idx]? with
  | none => (pm, .none)
  | some peer =>
    match peer.state with
    | .established epochs =>
      if epochs.rekey.isSome && peer.relay then pm.rekeyRespCore idx dg true moment
      else (pm, .none)
    | .handshaking _ => pm.completeHandshake idx pm.serverAddr dg true moment
    | .idle => (pm, .none)

/-! ### The rekey schedule -/

/-- Begins a rekey when it is due, and repeats its Init. -/
def driveRekeySchedule (pm : PeerManager env) (idx : Nat) (peer : Peer env)
    (epochs : EpochSet env) (moment : Moment) : EpochSet env × List EgressDatagram :=
  match epochs.rekey with
  | none =>
    let isGlareWinner := keyBefore pm.localPub peer.pubkey
    if !epochs.needsRekey moment.nowMs isGlareWinner pm.rekeyIntervalMs then (epochs, [])
    else
      let target := if peer.relay then some pm.serverAddr else peer.endpoint
      match target, pm.startInitiator peer.pubkey (moment.initSeed idx) moment.nowTai64n with
      | some target, some (hs, initPkt) =>
        ({ epochs with
            rekey := some
              { hs := hs
                initPkt := initPkt
                startedMs := moment.nowMs
                lastSentMs := moment.nowMs
                retryMs := pm.retryMs idx moment
                target := target } },
          pm.pushEgress peer peer.relay [⟨0, target, initPkt⟩])
      | _, _ => (epochs, [])
  | some rekey =>
    if moment.nowMs - rekey.startedMs ≥ handshakeTotalMs then ({ epochs with rekey := none }, [])
    else if moment.nowMs - rekey.lastSentMs < rekey.retryMs then (epochs, [])
    else
      ({ epochs with
          rekey := some
            { rekey with lastSentMs := moment.nowMs, retryMs := pm.retryMs idx moment } },
        pm.pushEgress peer peer.relay [⟨0, rekey.target, rekey.initPkt⟩])

end Yip.PeerManager
