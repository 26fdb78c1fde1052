/-
This file says once what the peer manager can do.
-/

import Mathlib.Logic.Relation
import Yip.Emission
import Yip.PeerManager.Dispatch

namespace Yip

open Crypto Transport List

/-- The datagram opens under these keys and says something. -/
def DataPlane.Delivers {env : Primitives} (dp : DataPlane env) (datagram : List Byte)
    (nowMs : Nat) : Prop :=
  dp.dataPlaintext datagram nowMs ≠ none ∨
    ∃ plaintext, dp.controlPlaintext datagram = some plaintext ∧ dp.Answers plaintext nowMs

/-- The datagram shows that the peer has the keys to come. -/
def EpochSet.Confirms {env : Primitives} (set : EpochSet env) (datagram : List Byte)
    (nowMs : Nat) : Prop :=
  ∃ next, set.next = some next ∧ next.dp.Delivers datagram nowMs ∧
    ¬set.current.Delivers datagram nowMs

/-- A session that has sealed nothing yet. -/
def Established.Genuine (established : Established) : Prop :=
  established.session =
    Session.fromRawKeys established.rawSendKey established.rawRecvKey 0 1

theorem readResponse_genuine {env : Primitives} {hs : env.noise.HandshakeState}
    {dg payload : List Byte} {established : Established}
    (read : HandshakeState.readResponse env hs dg = some (established, payload)) :
    established.Genuine := by
  unfold HandshakeState.readResponse at read
  split at read
  · cases read
  · split at read
    · cases read
    · obtain ⟨_, _, same⟩ := Option.map_eq_some_iff.mp read
      rw [← (Prod.mk.inj same).1]
      rfl

namespace PeerManager

variable {env : Primitives}

/-! ### Occasions -/

/-- What an event brings that can cause a change. -/
structure Occasion where
  init : InitRead → Prop
  resp : List Byte → Prop
  data : List Byte → Prop
  confirm : Prop
  packet : List Byte → Prop
  clock : Prop
  drop : Nat → Prop
  aside : Prop

structure Occasion.Le (few many : Occasion) : Prop where
  init : ∀ init, few.init init → many.init init
  resp : ∀ dg, few.resp dg → many.resp dg
  data : ∀ dg, few.data dg → many.data dg
  confirm : few.confirm → many.confirm
  packet : ∀ inner, few.packet inner → many.packet inner
  clock : few.clock → many.clock
  drop : ∀ idx, few.drop idx → many.drop idx
  aside : few.aside → many.aside

def Occasion.none : Occasion where
  init _ := False
  resp _ := False
  data _ := False
  confirm := False
  packet _ := False
  clock := False
  drop _ := False
  aside := False

def Occasion.any : Occasion where
  init _ := True
  resp _ := True
  data _ := True
  confirm := True
  packet _ := True
  clock := True
  drop _ := True
  aside := True

def Occasion.send (inner : List Byte) : Occasion := { Occasion.none with packet := (· = inner) }

def Occasion.timers : Occasion := { Occasion.none with clock := True }

def Occasion.quiet (mayConfirm : Prop) : Occasion where
  init _ := False
  resp _ := False
  data _ := True
  confirm := mayConfirm
  packet _ := True
  clock := True
  drop _ := False
  aside := True

variable (pm : PeerManager env)

def carried (pm : PeerManager env) (src : SocketAddr) (dg : List Byte) : List Byte :=
  match pm.rendezvous with
  | none => dg
  | some client =>
    match env.rendezvous.parse client dg with
    | .relayed _ payload => if src = env.rendezvous.serverAddr client then payload else dg
    | _ => dg

def Confirms (pm : PeerManager env) (dg : List Byte) (nowMs : Nat) : Prop :=
  ∃ peer ∈ pm.peers, ∃ epochs, peer.state = .established epochs ∧ epochs.Confirms dg nowMs

def Refuses (pm : PeerManager env) (init : InitRead) (nowSecs idx : Nat) : Prop :=
  ∃ peer, pm.peers[idx]? = some peer ∧ peer.state.isEstablished = true ∧
    init.remoteStatic = peer.pubkey ∧ pm.certAdmits init.cert init.remoteStatic nowSecs = false

/-- What a datagram of this content can cause. -/
def payloadOccasion (pm : PeerManager env) (payload : List Byte) (moment : Moment) : Occasion where
  init init := pm.readInit payload moment = some init
  resp dg := dg = payload ∧ payload.head? = some PacketType.handshakeResp.toByte
  data dg := dg = payload ∧ payload.head? ≠ some PacketType.handshakeInit.toByte ∧
    payload.head? ≠ some PacketType.handshakeResp.toByte
  confirm := pm.Confirms payload moment.nowMs
  packet _ := False
  clock := False
  drop idx := ∃ init, pm.readInit payload moment = some init ∧ pm.Refuses init moment.nowSecs idx
  aside := True

/-- The sweep that is due drops this peer's session. -/
def Sweeps (pm : PeerManager env) (moment : Moment) (idx : Nat) : Prop :=
  ∃ membership peer, pm.membership = some membership ∧
    pm.rekeyIntervalMs ≤ moment.nowMs - pm.lastCertSweepMs ∧ pm.peers[idx]? = some peer ∧
    peer.state.isEstablished = true ∧
    env.mesh.memberOrAdmittedCertValid (env.mesh.tickDigest membership moment.nowMs pm.obfOn).1
      peer.pubkey peer.admittedCertNotAfter moment.nowSecs = false

def tickOccasion (pm : PeerManager env) (moment : Moment) : Occasion :=
  { Occasion.timers with drop := pm.Sweeps moment, aside := True }

/-- Whether an Init of the peer is accepted rather than answered again or ignored. -/
def acceptsInit (pm : PeerManager env) (peer : Peer env) (init : InitRead) (viaRelay : Bool)
    (nowSecs : Nat) : Bool :=
  pm.certAdmits init.cert init.remoteStatic nowSecs && pm.acceptFreshInit peer init.initTs &&
    match peer.state with
    | .established epochs => init.initEph.any fun initEph =>
      decide (peer.cachedRespInitEph ≠ some initEph) && (epochs.nextCachedRespFor initEph).isNone &&
        if viaRelay then peer.relay || peer.lastAcceptedInitTs.isSome else !peer.relay
    | .handshaking _ => !keyBefore pm.localPub peer.pubkey
    | .idle => true

/-! ### Warrants -/

/-- An occasion, with the places at which an epoch may be installed over a live session that is
not relayed: the endpoint of the peer, and where the epoch sends to. -/
structure Warrant extends Occasion where
  place : Option SocketAddr → SocketAddr → Prop

instance : Coe Warrant Occasion := ⟨Warrant.toOccasion⟩

instance : Coe Occasion Warrant := ⟨fun occasion => { occasion with place := fun _ _ => False }⟩

structure Warrant.Le (few many : Warrant) : Prop extends few.toOccasion.Le many.toOccasion where
  place : ∀ endpoint addr, few.place endpoint addr → many.place endpoint addr

abbrev Warrant.none : Warrant := Occasion.none

abbrev Warrant.any : Warrant := { Occasion.any with place := fun _ _ => True }

abbrev Warrant.timers : Warrant := Occasion.timers

abbrev Warrant.quiet (mayConfirm : Prop) : Warrant := Occasion.quiet mayConfirm

theorem timers_le_tickOccasion (moment : Moment) : Warrant.timers.Le (pm.tickOccasion moment) :=
  ⟨⟨fun _ => id, fun _ => id, fun _ => id, id, fun _ => id, id, fun _ => False.elim, False.elim⟩,
    fun _ _ => id⟩

/-! ### Moves -/

/-- What may happen to one peer without a session beginning. -/
inductive Touch (occasion : Warrant) (pm : PeerManager env) (peer : Peer env) : Peer env → Prop
    where
  | begins (handshaking : HandshakingState env) (idle : peer.state = .idle) :
    Touch occasion pm peer
      { peer with
        relay := handshaking.viaRelay || peer.relay
        endpoint := if handshaking.viaRelay then peer.endpoint else some handshaking.target
        state := .handshaking handshaking }
  | asks (nowMs : Nat) : Touch occasion pm peer { peer with lastLookupMs := some nowMs }
  | advances (nowMs : Nat) (waiting : peer.state.isEstablished = false) :
    Touch occasion pm peer { peer with path := (peer.path.advance nowMs).1 }
  | learns (endpoints : List SocketAddr) (nowMs : Nat)
      (waiting : peer.state.isEstablished = false) :
    Touch occasion pm peer
      { peer with
        path := endpoints.foldl (fun path addr => path.onPeerCandidate addr nowMs) peer.path }
  | buffers (inner : List Byte) (given : occasion.packet inner)
      (waiting : peer.state.isEstablished = false) :
    Touch occasion pm peer (peer.pushPending inner)
  | flags (waiting : peer.state.isEstablished = false) :
    Touch occasion pm peer { peer with relay := true }
  | detours (init : InitRead) (given : occasion.init init)
      (live : peer.state.isEstablished = true) :
    Touch occasion pm peer { peer with relay := true }
  | renews (cert : List Byte) (nowSecs : Nat) (live : peer.state.isEstablished = true)
      (given : (∃ init, occasion.init init ∧ init.cert = cert) ∨ ∃ dg, occasion.resp dg)
      (admits : pm.certAdmits cert peer.pubkey nowSecs = true) :
    Touch occasion pm peer
      { peer with
        admittedCertNotAfter :=
          ((env.mesh.decodeCert cert).map env.mesh.notAfter).or peer.admittedCertNotAfter }
  | installs (init : InitRead) (initEph : List Byte) (peerAddr : SocketAddr)
      (epochs : EpochSet env) (given : occasion.init init)
      (live : peer.state = .established epochs)
      (fresh : pm.acceptFreshInit peer init.initTs = true)
      (way : peer.relay = false → occasion.place peer.endpoint peerAddr) :
    Touch occasion pm peer
      { peer with
        state := .established
          (epochs.installNext (pm.dataPlane init.established peerAddr) initEph init.respPkt)
        lastAcceptedInitTs := some init.initTs }
  | concludes (dg : List Byte) (epochs : EpochSet env) (given : occasion.resp dg)
      (live : peer.state = .established epochs) :
    Touch occasion pm peer { peer with state := .established { epochs with rekey := none } }
  | reverts (dg : List Byte) (handshaking : HandshakingState env) (given : occasion.resp dg)
      (live : peer.state = .handshaking handshaking) :
    Touch occasion pm peer { peer with state := .idle }
  | opens (dg : List Byte) (nowMs : Nat) (epochs : EpochSet env) (given : occasion.data dg)
      (live : peer.state = .established epochs)
      (confirming : epochs.Confirms dg nowMs → occasion.confirm) :
    Touch occasion pm peer { peer with state := .established (epochs.inboundOpen dg nowMs).1 }
  | roams (dg : List Byte) (src : SocketAddr) (given : occasion.data dg)
      (live : peer.state.isEstablished = true) :
    Touch occasion pm peer (peer.relearnEndpoint src)
  | seals (inner : List Byte) (nowMs : Nat) (epochs : EpochSet env) (given : occasion.packet inner)
      (live : peer.state = .established epochs) :
    Touch occasion pm peer
      { peer with
        state := .established
          { epochs with current := (epochs.current.onTunPacket inner nowMs).1 } }
  | escalates (handshaking : HandshakingState env) (given : occasion.clock)
      (live : peer.state = .handshaking handshaking) :
    Touch occasion pm peer { peer with state := .idle, endpoint := none }
  | retargets (handshaking : HandshakingState env) (given : occasion.clock)
      (live : peer.state = .handshaking handshaking) :
    Touch occasion pm peer { peer with state := .idle, relay := false }
  | clocks (idx : Nat) (moment : Moment) (jittered : Nat) (epochs scheduled : EpochSet env)
      (given : occasion.clock) (live : peer.state = .established epochs)
      (schedule : scheduled = (pm.driveRekeySchedule idx peer
        (epochs.retirePreviousIfDue moment.nowMs) moment).1) :
    Touch occasion pm peer
      { peer with
        state := .established
          { scheduled with current := (scheduled.current.tick moment.nowMs jittered).1 } }
  | resends (handshaking again : HandshakingState env) (given : occasion.clock)
      (live : peer.state = .handshaking handshaking) :
    Touch occasion pm peer { peer with state := .handshaking again }
  | expires (handshaking : HandshakingState env) (given : occasion.clock)
      (live : peer.state = .handshaking handshaking) :
    Touch occasion pm peer { peer with pendingTun := [], state := .idle }

/-- One step that begins no session. -/
inductive Quiet (occasion : Warrant) (pm : PeerManager env) : PeerManager env → Prop where
  | touch (idx : Nat) (f : Peer env → Peer env)
      (touches : ∀ peer, pm.peers[idx]? = some peer → Touch occasion pm peer (f peer)) :
    Quiet occasion pm (pm.modifyPeer idx f)
  | enters (pubkey : Key) (endpoints : List SocketAddr) (nowMs : Nat)
      (fresh : ∀ known ∈ pm.peers, known.pubkey ≠ pubkey) :
    Quiet occasion pm
      (pm.pushPeer (Peer.new pubkey endpoints.head? false (pm.startPath endpoints nowMs)))
  | drop (idx : Nat) (given : occasion.drop idx) : Quiet occasion pm (pm.dropSession idx)
  | aside (membership : Option env.mesh.Membership) (lastCertSweepMs : Nat)
      (given : occasion.aside) :
    Quiet occasion pm
      { pm with membership := membership, lastCertSweepMs := lastCertSweepMs }

abbrev Moves (occasion : Warrant) : PeerManager env → PeerManager env → Prop :=
  Relation.ReflTransGen (Quiet occasion)

/-- A step that begins a session or switches it to new keys. -/
inductive Starts (occasion : Warrant) (pm : PeerManager env) : PeerManager env → Prop where
  | responds (idx : Nat) (peer : Peer env) (init : InitRead) (peerAddr : SocketAddr)
      (viaRelay : Bool) (moment : Moment) (holds : pm.peers[idx]? = some peer)
      (waiting : peer.state.isEstablished = false) (given : occasion.init init)
      (genuine : init.established.Genuine)
      (admits : pm.certAdmits init.cert init.remoteStatic moment.nowSecs = true)
      (fresh : pm.acceptFreshInit peer init.initTs = true) :
    Starts occasion pm
      (((pm.keepInit idx init).modifyPeer idx fun peer =>
        { peer with
          endpoint := if viaRelay then peer.endpoint else some peerAddr
          relay := viaRelay }).startSession idx init.established peerAddr viaRelay moment.nowMs).1
  | completes (idx : Nat) (peer : Peer env) (handshaking : HandshakingState env) (dg : List Byte)
      (established : Established) (payload : List Byte) (peerAddr : SocketAddr) (viaRelay : Bool)
      (moment : Moment) (holds : pm.peers[idx]? = some peer)
      (live : peer.state = .handshaking handshaking) (given : occasion.resp dg)
      (read : HandshakeState.readResponse env handshaking.hs dg = some (established, payload))
      (admits : pm.certAdmits payload peer.pubkey moment.nowSecs = true) :
    Starts occasion pm
      (((((pm.modifyPeer idx fun peer => { peer with state := .idle }).keepResp idx
        payload).modifyPeer idx fun peer =>
          { peer with
            endpoint := if viaRelay then peer.endpoint else some peerAddr
            relay := viaRelay }).startSession idx established peerAddr viaRelay moment.nowMs).1)
  | rekeys (idx : Nat) (peer : Peer env) (epochs : EpochSet env) (rekey : RekeyInFlight env)
      (dg : List Byte) (established : Established) (payload : List Byte) (viaRelay : Bool)
      (moment : Moment) (holds : pm.peers[idx]? = some peer)
      (live : peer.state = .established epochs)
      (inFlight : epochs.rekey = some rekey) (given : occasion.resp dg)
      (read : HandshakeState.readResponse env rekey.hs dg = some (established, payload))
      (admits : pm.certAdmits payload peer.pubkey moment.nowSecs = true)
      (way : peer.relay = viaRelay) :
    Starts occasion pm
      (({ (pm.modifyPeer idx fun peer =>
            { peer with state := .established { epochs with rekey := none } }).renewAdmission idx
              payload with
          byTag := Function.update (Function.update pm.byTag epochs.current.connTag none)
            (pm.dataPlane established (pm.sessionAddr viaRelay rekey.target)).connTag
            (some idx) }.modifyPeer idx fun updated =>
          { updated with
            pendingTun := []
            state := .established (epochs.promoteFromRekey
              (drainPending (pm.dataPlane established (pm.sessionAddr viaRelay rekey.target))
                moment.nowMs (if peer.pendingTun.isEmpty then [[]] else peer.pendingTun)).1
              moment.nowMs) }).recordNewEpoch idx)

/-- What one call does: quiet steps, and at most one start at the end. -/
def Course (occasion : Warrant) (pm after : PeerManager env) : Prop :=
  ∃ quiet, Moves occasion pm quiet ∧ (after = quiet ∨ Starts occasion quiet after)

/-! ### What a start makes of a peer -/

def startEpochs (pm : PeerManager env) (established : Established) (peerAddr : SocketAddr)
    (viaRelay : Bool) (nowMs : Nat) (pending : List (List Byte)) : EpochSet env :=
  let drained := (drainPending (pm.dataPlane established peerAddr) nowMs pending).1
  let epochs := EpochSet.new drained nowMs
  let epochs := if viaRelay then epochs else epochs.setFecRepairRatio pm.redundancyPct
  { epochs with current := pm.strided epochs.current }

def rekeyEpochs (pm : PeerManager env) (epochs : EpochSet env) (established : Established)
    (peerAddr : SocketAddr) (nowMs : Nat) (pending : List (List Byte)) : EpochSet env :=
  let primed := (drainPending (pm.dataPlane established peerAddr) nowMs
    (if pending.isEmpty then [[]] else pending)).1
  { epochs.promoteFromRekey primed nowMs with current := pm.strided primed }

inductive Begun (occasion : Warrant) (pm : PeerManager env) (peer : Peer env) : Peer env → Prop
    where
  | responds (init : InitRead) (peerAddr : SocketAddr) (viaRelay : Bool) (moment : Moment)
      (waiting : peer.state.isEstablished = false) (given : occasion.init init)
      (admits : pm.certAdmits init.cert init.remoteStatic moment.nowSecs = true)
      (fresh : pm.acceptFreshInit peer init.initTs = true) :
    Begun occasion pm peer
      { peer with
        endpoint := if viaRelay then peer.endpoint else some peerAddr
        state := .established
          (pm.startEpochs init.established peerAddr viaRelay moment.nowMs peer.pendingTun)
        pendingTun := []
        cachedResp := some init.respPkt
        cachedRespInitEph := init.initEph
        lastAcceptedInitTs := some init.initTs
        admittedCertNotAfter := (env.mesh.decodeCert init.cert).map env.mesh.notAfter
        path := peer.path.committed
        relay := viaRelay }
  | completes (handshaking : HandshakingState env) (dg : List Byte) (established : Established)
      (payload : List Byte) (peerAddr : SocketAddr) (viaRelay : Bool) (moment : Moment)
      (live : peer.state = .handshaking handshaking) (given : occasion.resp dg)
      (read : HandshakeState.readResponse env handshaking.hs dg = some (established, payload))
      (admits : pm.certAdmits payload peer.pubkey moment.nowSecs = true) :
    Begun occasion pm peer
      { peer with
        endpoint := if viaRelay then peer.endpoint else some peerAddr
        state := .established
          (pm.startEpochs established peerAddr viaRelay moment.nowMs peer.pendingTun)
        pendingTun := []
        admittedCertNotAfter := (env.mesh.decodeCert payload).map env.mesh.notAfter
        path := peer.path.committed
        relay := viaRelay }
  | rekeys (epochs : EpochSet env) (rekey : RekeyInFlight env) (dg : List Byte)
      (established : Established) (payload : List Byte) (viaRelay : Bool) (moment : Moment)
      (live : peer.state = .established epochs) (inFlight : epochs.rekey = some rekey)
      (given : occasion.resp dg)
      (read : HandshakeState.readResponse env rekey.hs dg = some (established, payload))
      (admits : pm.certAdmits payload peer.pubkey moment.nowSecs = true)
      (way : peer.relay = viaRelay) :
    Begun occasion pm peer
      { peer with
        state := .established (pm.rekeyEpochs epochs established
          (pm.sessionAddr viaRelay rekey.target) moment.nowMs peer.pendingTun)
        pendingTun := []
        admittedCertNotAfter :=
          ((env.mesh.decodeCert payload).map env.mesh.notAfter).or peer.admittedCertNotAfter }

variable {peer : Peer env} {idx : Nat}

theorem modifyPeer_peers {pm : PeerManager env} (holds : pm.peers[idx]? = some peer)
    (f : Peer env → Peer env) : (pm.modifyPeer idx f).peers = pm.peers.set idx (f peer) := by
  rw [modifyPeer, modify_eq_set_getElem?, holds]
  rfl

theorem getElem?_modifyPeer_of_holds {pm : PeerManager env} (holds : pm.peers[idx]? = some peer)
    (f : Peer env → Peer env) : (pm.modifyPeer idx f).peers[idx]? = some (f peer) := by
  rw [getElem?_modifyPeer_self, holds]
  rfl

theorem recordNewEpoch_peers {pm : PeerManager env} {f : Peer env → Peer env}
    {epochs : EpochSet env} {byTag : Nat → Option Nat} (holds : pm.peers[idx]? = some peer)
    (live : (f peer).state = .established epochs) :
    (({ pm with byTag := byTag }.modifyPeer idx f).recordNewEpoch idx).peers = pm.peers.set idx
      { f peer with
        state := .established { epochs with current := pm.strided epochs.current } } := by
  have found : ({ pm with byTag := byTag }.modifyPeer idx f).peers[idx]? = some (f peer) :=
    getElem?_modifyPeer_of_holds holds f
  have updated : ({ pm with byTag := byTag }.modifyPeer idx f).peers = pm.peers.set idx (f peer) :=
    modifyPeer_peers holds f
  unfold recordNewEpoch
  simp only [found, live]
  refine (modifyPeer_peers found _).trans ?_
  rw [updated, set_set]
  rfl

theorem startSession_peers {pm : PeerManager env} (holds : pm.peers[idx]? = some peer)
    (established : Established) (peerAddr : SocketAddr) (viaRelay : Bool) (nowMs : Nat) :
    (pm.startSession idx established peerAddr viaRelay nowMs).1.peers =
      pm.peers.set idx
        { peer with
          pendingTun := []
          state := .established
            (pm.startEpochs established peerAddr viaRelay nowMs peer.pendingTun) } := by
  unfold startSession
  rw [holds]
  exact recordNewEpoch_peers holds rfl

variable {occasion : Warrant}

theorem Starts.begun {pm after : PeerManager env} (starts : Starts occasion pm after) :
    ∃ idx peer begun, pm.peers[idx]? = some peer ∧ after.peers = pm.peers.set idx begun ∧
      Begun occasion pm peer begun := by
  cases starts with
  | responds idx peer init peerAddr viaRelay moment holds waiting given genuine admits fresh =>
    refine ⟨idx, peer, _, holds, ?_, .responds init peerAddr viaRelay moment waiting given admits
      fresh⟩
    have kept : (pm.keepInit idx init).peers[idx]? = some _ := getElem?_modifyPeer_of_holds holds _
    rw [startSession_peers (getElem?_modifyPeer_of_holds kept _), modifyPeer_peers kept, keepInit,
      modifyPeer_peers holds, set_set, set_set]
    rfl
  | completes idx peer handshaking dg established payload peerAddr viaRelay moment holds live given
      read admits =>
    refine ⟨idx, peer, _, holds, ?_, .completes handshaking dg established payload peerAddr viaRelay
      moment live given read admits⟩
    have reverted := getElem?_modifyPeer_of_holds holds fun peer => { peer with state := .idle }
    have kept : ((pm.modifyPeer idx fun peer => { peer with state := .idle }).keepResp idx
        payload).peers[idx]? = some _ := getElem?_modifyPeer_of_holds reverted _
    rw [startSession_peers (getElem?_modifyPeer_of_holds kept _), modifyPeer_peers kept, keepResp,
      modifyPeer_peers reverted, modifyPeer_peers holds, set_set, set_set, set_set]
    rfl
  | rekeys idx peer epochs rekey dg established payload viaRelay moment holds live inFlight given
      read admits way =>
    refine ⟨idx, peer, _, holds, ?_, .rekeys epochs rekey dg established payload viaRelay moment
      live inFlight given read admits way⟩
    have taken := getElem?_modifyPeer_of_holds holds fun peer =>
      { peer with state := .established { epochs with rekey := none } }
    have renewed : ((pm.modifyPeer idx fun peer =>
        { peer with state := .established { epochs with rekey := none } }).renewAdmission idx
          payload).peers[idx]? = some _ := getElem?_modifyPeer_of_holds taken _
    rw [recordNewEpoch_peers renewed rfl, renewAdmission, modifyPeer_peers taken,
      modifyPeer_peers holds, set_set, set_set]
    rfl

/-! ### One position -/

theorem getElem?_pushPeer (fresh : Peer env) (idx : Nat) :
    (pm.pushPeer fresh).peers[idx]? = pm.peers[idx]? ∨
      pm.peers[idx]? = none ∧ (pm.pushPeer fresh).peers[idx]? = some fresh := by
  rw [pushPeer, getElem?_append]
  split
  · exact Or.inl rfl
  · rename_i beyond
    rw [getElem?_eq_none (Nat.le_of_not_lt beyond)]
    cases idx - pm.peers.length with
    | zero => exact Or.inr ⟨rfl, rfl⟩
    | succ => exact Or.inl rfl

/-- What a quiet move makes of the peer at a position: nothing, a touch of it, a peer where there
was none, or a peer without a session. -/
@[elab_as_elim]
theorem Quiet.seat {pm after : PeerManager env}
    {motive : Option (Peer env) → Option (Peer env) → Prop} (quiet : Quiet occasion pm after)
    (idx : Nat) (same : ∀ peer, motive peer peer)
    (touched : ∀ peer touched, Touch occasion pm peer touched → motive (some peer) (some touched))
    (entered : ∀ pubkey (endpoints : List SocketAddr) nowMs, motive none
      (some (Peer.new pubkey endpoints.head? false (pm.startPath endpoints nowMs))))
    (dropped : occasion.drop idx → ∀ peer : Peer env, motive (some peer)
      (some { peer with state := .idle, admittedCertNotAfter := none })) :
    motive pm.peers[idx]? after.peers[idx]? := by
  cases quiet with
  | touch position f touches =>
    rw [getElem?_modifyPeer]
    cases holds : pm.peers[idx]? with
    | none => exact same none
    | some peer =>
      rw [Option.map_some]
      split
      · rename_i here
        exact touched peer _ (touches peer (here ▸ holds))
      · exact same (some peer)
  | enters pubkey endpoints nowMs =>
    rcases pm.getElem?_pushPeer _ idx with kept | ⟨empty, added⟩
    · rw [kept]
      exact same _
    · rw [empty, added]
      exact entered pubkey endpoints nowMs
  | drop position given =>
    by_cases here : idx = position
    · subst here
      unfold dropSession
      split
      · exact same _
      · rename_i peer holds
        rw [getElem?_modifyPeer_self, holds]
        exact dropped given peer
    · rw [dropSession_getElem?_of_ne pm here]
      exact same _
  | aside => exact same _

@[elab_as_elim]
theorem Starts.seat {pm after : PeerManager env}
    {motive : Option (Peer env) → Option (Peer env) → Prop} (starts : Starts occasion pm after)
    (idx : Nat) (same : ∀ peer, motive peer peer)
    (begun : ∀ peer begun, Begun occasion pm peer begun → motive (some peer) (some begun)) :
    motive pm.peers[idx]? after.peers[idx]? := by
  obtain ⟨position, peer, started, holds, peers, begins⟩ := starts.begun
  rw [peers]
  by_cases here : position = idx
  · subst here
    rw [getElem?_set_self (List.getElem?_eq_some_iff.mp holds).1, holds]
    exact begun peer started begins
  · rw [getElem?_set_ne here]
    exact same _

/-! ### What never changes -/

def setting (pm : PeerManager env) : Config env where
  localPriv := pm.localPriv
  localPub := pm.localPub
  peers := []
  l2 := pm.l2
  rendezvous := pm.rendezvous
  membership := none
  relayOnly := pm.isRelayOnly
  obfOn := pm.obfOn
  dataSymbolSize := pm.dataSymbolSize
  rekeyIntervalMs := pm.rekeyIntervalMs
  bootFloorTs := pm.bootFloorTs
  shardId := pm.shardId
  numShards := pm.numShards
  redundancyPct := pm.redundancyPct

theorem dropSession_setting (idx : Nat) : (pm.dropSession idx).setting = pm.setting := by
  unfold dropSession
  split <;> rfl

theorem recordNewEpoch_setting (idx : Nat) : (pm.recordNewEpoch idx).setting = pm.setting := by
  unfold recordNewEpoch
  split
  · rfl
  · split <;> rfl

theorem startSession_setting (idx : Nat) (established : Established)
    (peerAddr : SocketAddr) (viaRelay : Bool) (nowMs : Nat) :
    (pm.startSession idx established peerAddr viaRelay nowMs).1.setting = pm.setting := by
  unfold startSession
  split
  · rfl
  · exact recordNewEpoch_setting ..

theorem Quiet.setting_eq {pm after : PeerManager env}
    (quiet : Quiet occasion pm after) : after.setting = pm.setting := by
  cases quiet with
  | drop idx => exact pm.dropSession_setting idx
  | touch | enters | aside => rfl

theorem Starts.setting_eq {pm after : PeerManager env}
    (starts : Starts occasion pm after) : after.setting = pm.setting := by
  cases starts with
  | responds | completes => exact startSession_setting ..
  | rekeys => exact recordNewEpoch_setting ..

section Chains

variable {occasion few many : Warrant} {pm after between : PeerManager env}

theorem Moves.course (moves : Moves occasion pm after) : Course occasion pm after :=
  ⟨after, moves, Or.inl rfl⟩

theorem Moves.before (moves : Moves occasion pm between)
    (course : Course occasion between after) : Course occasion pm after := by
  obtain ⟨quiet, later, ends⟩ := course
  exact ⟨quiet, moves.trans later, ends⟩

theorem Starts.course (starts : Starts occasion pm after) : Course occasion pm after :=
  ⟨pm, .refl, Or.inr starts⟩

theorem Course.refl (pm : PeerManager env) : Course occasion pm pm :=
  Moves.course .refl

theorem Touch.mono (le : few.Le many) {peer touched : Peer env}
    (touch : Touch few pm peer touched) : Touch many pm peer touched := by
  cases touch with
  | begins handshaking idle => exact .begins handshaking idle
  | asks nowMs => exact .asks nowMs
  | advances nowMs waiting => exact .advances nowMs waiting
  | learns endpoints nowMs waiting => exact .learns endpoints nowMs waiting
  | buffers inner given waiting => exact .buffers inner (le.packet inner given) waiting
  | flags waiting => exact .flags waiting
  | detours init given live => exact .detours init (le.init init given) live
  | renews cert nowSecs live given admits =>
    refine .renews cert nowSecs live (given.imp ?_ ?_) admits
    · exact fun ⟨init, given, same⟩ => ⟨init, le.init init given, same⟩
    · exact fun ⟨dg, given⟩ => ⟨dg, le.resp dg given⟩
  | installs init initEph peerAddr epochs given live fresh way =>
    exact .installs init initEph peerAddr epochs (le.init init given) live fresh
      fun direct => le.place _ _ (way direct)
  | concludes dg epochs given live => exact .concludes dg epochs (le.resp dg given) live
  | reverts dg handshaking given live => exact .reverts dg handshaking (le.resp dg given) live
  | opens dg nowMs epochs given live confirming =>
    exact .opens dg nowMs epochs (le.data dg given) live fun confirms =>
      le.confirm (confirming confirms)
  | roams dg src given live => exact .roams dg src (le.data dg given) live
  | seals inner nowMs epochs given live =>
    exact .seals inner nowMs epochs (le.packet inner given) live
  | escalates handshaking given live => exact .escalates handshaking (le.clock given) live
  | retargets handshaking given live => exact .retargets handshaking (le.clock given) live
  | clocks idx moment jittered epochs scheduled given live schedule =>
    exact .clocks idx moment jittered epochs scheduled (le.clock given) live schedule
  | resends handshaking again given live => exact .resends handshaking again (le.clock given) live
  | expires handshaking given live => exact .expires handshaking (le.clock given) live

theorem Moves.mono (le : few.Le many) (moves : Moves few pm after) : Moves many pm after := by
  refine Relation.ReflTransGen.mono (fun pm after quiet => ?_) _ _ moves
  cases quiet with
  | touch idx f touches => exact .touch idx f fun peer holds => (touches peer holds).mono le
  | enters pubkey endpoints nowMs fresh => exact .enters pubkey endpoints nowMs fresh
  | drop idx given => exact .drop idx (le.drop idx given)
  | aside membership lastCertSweepMs given => exact .aside membership _ (le.aside given)

end Chains

end PeerManager

end Yip
