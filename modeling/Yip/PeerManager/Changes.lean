/-
This file draws the picture of the moves of the peer manager that its tables and the other
shards depend on.
-/

import Yip.PeerManager.Traversal

namespace Yip

open Crypto Transport

/-! ### Epochs that keep their keys -/

namespace DataPlane

variable {env : Primitives}

/-- The keys of a data plane are those it was made from. -/
def Derived (dp : DataPlane env) : Prop :=
  dp.credentials =
    ⟨dp.rawSendKey, dp.rawRecvKey, dp.rawSendKey, dp.rawRecvKey, dp.authKey, dp.hpKey,
      ⟨dp.authKey, dp.hpKey⟩, connTagFromKeys dp.authKey dp.hpKey⟩

theorem Derived.of_credentials {dp after : DataPlane env} (derived : dp.Derived)
    (same : after.credentials = dp.credentials) : after.Derived := by
  unfold Derived at derived ⊢
  rw [same, derived, show after.rawSendKey = dp.rawSendKey from
      congrArg Credentials.rawSendKey same,
    show after.rawRecvKey = dp.rawRecvKey from congrArg Credentials.rawRecvKey same,
    show after.authKey = dp.authKey from congrArg Credentials.authKey same,
    show after.hpKey = dp.hpKey from congrArg Credentials.hpKey same]

end DataPlane

def SessionEpochMsg.credentials (msg : SessionEpochMsg) : Credentials :=
  ⟨msg.sendKey, msg.recvKey, msg.sendKey, msg.recvKey, msg.authKey, msg.hpKey,
    ⟨msg.authKey, msg.hpKey⟩, connTagFromKeys msg.authKey msg.hpKey⟩

namespace EpochSet

variable {env : Primitives}

theorem inboundOpen_credentials (set : EpochSet env) (datagram : List Byte) (nowMs : Nat)
    (unconfirmed : ¬set.Confirms datagram nowMs) :
    (set.inboundOpen datagram nowMs).1.current.credentials = set.current.credentials := by
  obtain ⟨_, ⟨current, _⟩ | ⟨next, isNext, promotes⟩⟩ := set.inboundOpen_cases datagram nowMs
  · rw [current]
    exact (set.current.onUdpDatagram_acts datagram nowMs).credentials
  · obtain ⟨quiet, delivers⟩ := (promotes_iff_outcomes set next isNext datagram nowMs).mp promotes
    refine absurd ⟨next, isNext, (next.dp.onUdpDatagram_snd datagram nowMs).mp delivers, ?_⟩
      unconfirmed
    exact fun current => (set.current.onUdpDatagram_snd datagram nowMs).mpr current quiet

theorem setPeerAddr_credentials (set : EpochSet env) (addr : SocketAddr) :
    (set.setPeerAddr addr).current.credentials = set.current.credentials :=
  (set.current.setPeerAddr_acts addr).credentials

end EpochSet

namespace Peer

variable {env : Primitives}

/-- A peer keeps its key, and its current keys unless a confirmation is allowed. -/
def Keeps (mayConfirm : Prop) (before after : Peer env) : Prop :=
  after.pubkey = before.pubkey ∧ ∀ epochs, after.state = .established epochs →
    mayConfirm ∨ ∃ old, before.state = .established old ∧
      epochs.current.credentials = old.current.credentials

variable {mayConfirm : Prop} {before after : Peer env}

theorem Keeps.of_state (pubkey : after.pubkey = before.pubkey)
    (state : after.state = before.state) : before.Keeps mayConfirm after :=
  ⟨pubkey, fun epochs established => Or.inr ⟨epochs, state ▸ established, rfl⟩⟩

theorem Keeps.of_no_session (pubkey : after.pubkey = before.pubkey)
    (ended : after.state.isEstablished = false) : before.Keeps mayConfirm after := by
  refine ⟨pubkey, fun epochs established => ?_⟩
  rw [established] at ended
  cases ended

theorem Keeps.of_epochs {old epochs : EpochSet env} (pubkey : after.pubkey = before.pubkey)
    (had : before.state = .established old) (has : after.state = .established epochs)
    (same : epochs.current.credentials = old.current.credentials) :
    before.Keeps mayConfirm after := by
  refine ⟨pubkey, fun found established => Or.inr ⟨old, had, ?_⟩⟩
  rw [has] at established
  cases established
  exact same

theorem relearnEndpoint_keeps (peer : Peer env) (src : SocketAddr) :
    peer.Keeps mayConfirm (peer.relearnEndpoint src) := by
  rcases peer.relearnEndpoint_cases src with same | ⟨addr, moved⟩
  · rw [same]
    exact .of_state rfl rfl
  · rw [moved]
    cases state : peer.state with
    | idle | handshaking =>
      exact .of_no_session rfl (by simp [moveTo, state, PeerState.isEstablished])
    | established epochs =>
      exact .of_epochs rfl state (moveTo_of_live state addr) (epochs.setPeerAddr_credentials addr)

end Peer

namespace PeerManager

variable {env : Primitives}

/-! ### Changes -/

/-- One change of the manager that announces nothing. -/
inductive Change (mayConfirm : Prop) (pm after : PeerManager env) : Prop where
  | adjust (idx : Nat) (f : Peer env → Peer env) (peers : after.peers = pm.peers.modify idx f)
      (byAddr : after.byAddr = pm.byAddr) (byNode : after.byNode = pm.byNode)
      (newEpochs : after.newEpochs = pm.newEpochs)
      (byTag : ∀ tag position, after.byTag tag = some position → pm.byTag tag = some position)
      (keeps : ∀ peer, pm.peers[idx]? = some peer → peer.Keeps mayConfirm (f peer))
  | push (peer : Peer env) (idle : peer.state = .idle)
      (fresh : ∀ known ∈ pm.peers, known.pubkey ≠ peer.pubkey) (pushed : after = pm.pushPeer peer)

abbrev Changes (mayConfirm : Prop) : PeerManager env → PeerManager env → Prop :=
  Relation.ReflTransGen (Change mayConfirm)

/-- A session begins or is rekeyed, and its keys are noted for the other workers. -/
inductive Announces (pm after : PeerManager env) : Prop where
  | intro (idx : Nat) (f : Peer env → Peer env) (peer : Peer env) (epochs : EpochSet env)
      (holds : pm.peers[idx]? = some peer) (peers : after.peers = pm.peers.modify idx f)
      (byAddr : after.byAddr = pm.byAddr) (byNode : after.byNode = pm.byNode)
      (newEpochs : after.newEpochs = pm.newEpochs ++ [epochMsg (f peer) epochs.current])
      (pubkey : (f peer).pubkey = peer.pubkey) (state : (f peer).state = .established epochs)
      (credentials : epochs.current.credentials = (epochMsg (f peer) epochs.current).credentials)
      (byTag : ∀ tag position, after.byTag tag = some position →
        pm.byTag tag = some position ∨ position = idx ∧ tag = epochs.current.connTag)

/-- What one call does: changes, and at most one announcement at the end. -/
def Episode (mayConfirm : Prop) (pm after : PeerManager env) : Prop :=
  ∃ quiet, Changes mayConfirm pm quiet ∧ (after = quiet ∨ quiet.Announces after)

theorem Changes.episode {mayConfirm : Prop} {pm after : PeerManager env}
    (changes : Changes mayConfirm pm after) : Episode mayConfirm pm after :=
  ⟨after, changes, Or.inl rfl⟩

theorem Changes.before {mayConfirm : Prop} {pm between after : PeerManager env}
    (changes : Changes mayConfirm pm between) (episode : Episode mayConfirm between after) :
    Episode mayConfirm pm after := by
  obtain ⟨quiet, later, ends⟩ := episode
  exact ⟨quiet, changes.trans later, ends⟩

section Chains

variable {mayConfirm : Prop} {occasion : Warrant} {pm after : PeerManager env}

theorem Change.mono {few many : Prop} (more : few → many) (change : Change few pm after) :
    Change many pm after := by
  cases change with
  | adjust idx f peers byAddr byNode newEpochs byTag keeps =>
    exact .adjust idx f peers byAddr byNode newEpochs byTag fun peer holds =>
      ⟨(keeps peer holds).1, fun epochs live => ((keeps peer holds).2 epochs live).imp_left more⟩
  | push peer idle fresh pushed => exact .push peer idle fresh pushed

theorem Changes.mono {few many : Prop} (more : few → many) (changes : Changes few pm after) :
    Changes many pm after :=
  Relation.ReflTransGen.mono (fun _ _ => Change.mono more) _ _ changes

variable {idx : Nat} {peer : Peer env} {result : PeerManager env × DispatchOut}

theorem modifyPeer_changes {f : Peer env → Peer env}
    (keeps : ∀ peer, pm.peers[idx]? = some peer → peer.Keeps mayConfirm (f peer)) :
    Changes mayConfirm pm (pm.modifyPeer idx f) :=
  .single (.adjust idx f rfl rfl rfl rfl (fun _ _ entry => entry) keeps)

theorem pushPeer_changes (idle : peer.state = .idle)
    (fresh : ∀ known ∈ pm.peers, known.pubkey ≠ peer.pubkey) :
    Changes mayConfirm pm (pm.pushPeer peer) :=
  .single (.push peer idle fresh rfl)

theorem dropSession_changes (idx : Nat) : Changes mayConfirm pm (pm.dropSession idx) := by
  unfold dropSession
  split
  · exact .refl
  · refine .single (.adjust idx _ rfl rfl rfl rfl ?_ fun _ _ => .of_no_session rfl rfl)
    intro tag position entry
    simp only [byTag_modifyPeer, removeTags] at entry
    split at entry
    · cases entry
    · exact entry

theorem strided_credentials (pm : PeerManager env) (dp : DataPlane env) :
    (pm.strided dp).credentials = dp.credentials := by
  unfold strided
  split <;> rfl

theorem recordNewEpoch_announces {epochs : EpochSet env} {f : Peer env → Peer env}
    {byTag : Nat → Option Nat} (holds : pm.peers[idx]? = some peer)
    (pubkey : (f peer).pubkey = peer.pubkey) (state : (f peer).state = .established epochs)
    (derived : epochs.current.Derived)
    (entries : ∀ tag position, byTag tag = some position →
      pm.byTag tag = some position ∨ position = idx ∧ tag = epochs.current.connTag) :
    pm.Announces (({ pm with byTag := byTag }.modifyPeer idx f).recordNewEpoch idx) := by
  have found : ({ pm with byTag := byTag }.modifyPeer idx f).peers[idx]? = some (f peer) := by
    rw [getElem?_modifyPeer_self, holds, Option.map_some]
  unfold recordNewEpoch
  simp only [found, state]
  have keys := pm.strided_credentials epochs.current
  refine .intro idx (_ ∘ f) peer { epochs with current := pm.strided epochs.current } holds
    (List.modify_modify_eq f _ idx pm.peers) rfl rfl rfl pubkey rfl ?_ ?_
  · exact derived.of_credentials keys
  · rw [show (pm.strided epochs.current).connTag = _ from congrArg Credentials.connTag keys]
    exact entries

theorem drainPending_credentials (dp : DataPlane env) (nowMs : Nat) (pending : List (List Byte)) :
    (drainPending dp nowMs pending).1.credentials = dp.credentials := by
  induction pending generalizing dp with
  | nil => rfl
  | cons inner rest ih =>
    exact (ih _).trans (dp.onTunPacket_acts inner nowMs).credentials

theorem drained_derived (pm : PeerManager env) {established : Established}
    (genuine : established.Genuine) (peerAddr : SocketAddr) (nowMs : Nat)
    (pending : List (List Byte)) :
    (drainPending (pm.dataPlane established peerAddr) nowMs pending).1.Derived := by
  have fresh : (pm.dataPlane established peerAddr).Derived := by
    unfold DataPlane.Derived DataPlane.credentials dataPlane DataPlane.new
    rw [genuine]
    rfl
  exact fresh.of_credentials (drainPending_credentials _ nowMs pending)

theorem drained_tag (pm : PeerManager env) (established : Established) (peerAddr : SocketAddr)
    (nowMs : Nat) (pending : List (List Byte)) :
    (drainPending (pm.dataPlane established peerAddr) nowMs pending).1.connTag =
      (pm.dataPlane established peerAddr).connTag :=
  congrArg Credentials.connTag (drainPending_credentials _ nowMs pending)

theorem entry_of_update {table : Nat → Option Nat} {entered tag position : Nat}
    (entry : Function.update table entered (some idx) tag = some position) :
    table tag = some position ∨ position = idx ∧ tag = entered := by
  by_cases own : tag = entered
  · subst own
    rw [Function.update_self] at entry
    exact Or.inr ⟨(Option.some.inj entry).symm, rfl⟩
  · rw [Function.update_of_ne own] at entry
    exact Or.inl entry

theorem startSession_announces (present : ∃ peer, pm.peers[idx]? = some peer)
    {established : Established} (genuine : established.Genuine) (peerAddr : SocketAddr)
    (viaRelay : Bool) (nowMs : Nat) :
    pm.Announces (pm.startSession idx established peerAddr viaRelay nowMs).1 := by
  obtain ⟨peer, holds⟩ := present
  unfold startSession
  rw [holds]
  refine recordNewEpoch_announces holds rfl rfl ?_ ?_
  · have derived := pm.drained_derived genuine peerAddr nowMs peer.pendingTun
    split <;> exact derived
  · intro tag position entry
    refine (entry_of_update entry).imp id (And.imp id fun own => ?_)
    rw [own, ← pm.drained_tag established peerAddr nowMs peer.pendingTun]
    split <;> rfl

/-! ### What the moves change -/

theorem driveRekeySchedule_current (idx : Nat) (peer : Peer env) (epochs : EpochSet env)
    (moment : Moment) :
    (pm.driveRekeySchedule idx peer epochs moment).1.current = epochs.current := by
  unfold driveRekeySchedule
  split
  · dsimp only
    split
    · rfl
    · split <;> rfl
  · split
    · rfl
    · split <;> rfl

theorem retirePreviousIfDue_current (epochs : EpochSet env) (nowMs : Nat) :
    (epochs.retirePreviousIfDue nowMs).current = epochs.current := by
  unfold EpochSet.retirePreviousIfDue
  split <;> rfl

theorem Touch.keeps {touched : Peer env} (touch : Touch occasion pm peer touched) :
    peer.Keeps occasion.confirm touched := by
  cases touch with
  | begins | reverts | escalates | retargets | resends | expires =>
    exact .of_no_session rfl rfl
  | asks | advances | learns | buffers | flags | detours | renews => exact .of_state rfl rfl
  | installs _ _ _ epochs _ live => exact .of_epochs rfl live rfl rfl
  | concludes _ epochs _ live => exact .of_epochs rfl live rfl rfl
  | opens dg nowMs epochs _ live confirming =>
    by_cases confirms : epochs.Confirms dg nowMs
    · exact ⟨rfl, fun _ _ => Or.inl (confirming confirms)⟩
    · exact .of_epochs rfl live rfl (epochs.inboundOpen_credentials dg nowMs confirms)
  | roams _ src => exact peer.relearnEndpoint_keeps src
  | seals inner nowMs epochs _ live =>
    exact .of_epochs rfl live rfl (epochs.current.onTunPacket_acts inner nowMs).credentials
  | clocks idx moment jittered epochs scheduled _ live schedule =>
    refine .of_epochs rfl live rfl ((DataPlane.tick_acts _ _ _).credentials.trans ?_)
    rw [schedule, driveRekeySchedule_current, retirePreviousIfDue_current]

theorem Quiet.changes (quiet : Quiet occasion pm after) : Changes occasion.confirm pm after := by
  cases quiet with
  | touch idx f touches => exact modifyPeer_changes fun peer holds => (touches peer holds).keeps
  | enters pubkey endpoints nowMs fresh => exact pushPeer_changes rfl fresh
  | drop idx => exact dropSession_changes idx
  | aside membership lastCertSweepMs =>
    exact .single (.adjust 0 id (List.modify_id 0 pm.peers).symm rfl rfl rfl
      (fun _ _ entry => entry) fun _ _ => .of_state rfl rfl)

theorem Moves.changes (moves : Moves occasion pm after) : Changes occasion.confirm pm after := by
  induction moves with
  | refl => exact .refl
  | tail _ quiet ih => exact ih.trans quiet.changes

theorem renewAdmission_changes (idx : Nat) (cert : List Byte) :
    Changes mayConfirm pm (pm.renewAdmission idx cert) :=
  modifyPeer_changes fun _ _ => .of_state rfl rfl

theorem keepInit_changes (idx : Nat) (init : InitRead) :
    Changes mayConfirm pm (pm.keepInit idx init) :=
  modifyPeer_changes fun _ _ => .of_state rfl rfl

theorem keepResp_changes (idx : Nat) (payload : List Byte) :
    Changes mayConfirm pm (pm.keepResp idx payload) :=
  modifyPeer_changes fun _ _ => .of_state rfl rfl

theorem Starts.episode (starts : Starts occasion pm after) : Episode mayConfirm pm after := by
  cases starts with
  | responds idx peer init peerAddr viaRelay moment holds _ _ genuine =>
    refine ⟨_, ?_, Or.inr (startSession_announces ?_ genuine peerAddr viaRelay moment.nowMs)⟩
    · refine .trans (keepInit_changes idx init) ?_
      exact modifyPeer_changes fun _ _ => .of_state rfl rfl
    · rw [getElem?_modifyPeer_self, keepInit, getElem?_modifyPeer_self, holds]
      exact ⟨_, rfl⟩
  | completes idx peer handshaking dg established payload peerAddr viaRelay moment holds _ _ read =>
    refine ⟨_, ?_, Or.inr (startSession_announces ?_ (readResponse_genuine read) peerAddr viaRelay
      moment.nowMs)⟩
    · have reverted : Changes mayConfirm pm
          (pm.modifyPeer idx fun peer => { peer with state := .idle }) :=
        modifyPeer_changes fun _ _ => .of_no_session rfl rfl
      refine (reverted.trans (keepResp_changes idx payload)).trans ?_
      exact modifyPeer_changes fun _ _ => .of_state rfl rfl
    · rw [getElem?_modifyPeer_self, keepResp, getElem?_modifyPeer_self, getElem?_modifyPeer_self,
        holds]
      exact ⟨_, rfl⟩
  | rekeys idx peer epochs rekey dg established payload viaRelay moment holds live _ _ read =>
    have taken : Changes mayConfirm pm (pm.modifyPeer idx fun peer =>
        { peer with state := .established { epochs with rekey := none } }) := by
      refine modifyPeer_changes fun found same => ?_
      cases holds.symm.trans same
      exact .of_epochs rfl live rfl rfl
    have renewed := taken.trans (renewAdmission_changes idx payload)
    refine ⟨_, renewed, Or.inr (recordNewEpoch_announces
      (by rw [renewAdmission, getElem?_modifyPeer_self, getElem?_modifyPeer_self, holds]
          rfl) rfl rfl ?_ ?_)⟩
    · exact pm.drained_derived (readResponse_genuine read) _ _ _
    · intro tag position entry
      refine (entry_of_update entry).imp (fun kept => ?_) (And.imp id fun own => ?_)
      · by_cases old : tag = epochs.current.connTag
        · rw [old, Function.update_self] at kept
          cases kept
        · rwa [Function.update_of_ne old] at kept
      · rw [own]
        exact (pm.drained_tag ..).symm

theorem Course.episode (course : Course occasion pm after) : Episode occasion.confirm pm after := by
  obtain ⟨quiet, moves, rfl | starts⟩ := course
  · exact moves.changes.episode
  · exact moves.changes.before starts.episode

/-! ### What the calls of the event loop change -/

theorem admitMember_changes (pubkey : Key) (endpoints : List SocketAddr) (nowMs : Nat) :
    Changes mayConfirm pm (pm.admitMember pubkey endpoints nowMs) :=
  (admitMember_moves pubkey endpoints nowMs : Moves (.quiet mayConfirm) pm _).changes

variable (src : SocketAddr) (dg : List Byte) (moment : Moment)

theorem handleDataOrControl_changes (nowMs : Nat)
    (handled : pm.handleDataOrControl src dg nowMs = some result) :
    Changes (pm.Confirms dg nowMs) pm result.1 :=
  (handleDataOrControl_moves src trivial nowMs handled id : Moves (.quiet _) pm _).changes

theorem onGossip_changes (nowSecs : Nat) : Changes mayConfirm pm (pm.onGossip src dg nowSecs).1 :=
  (onGossip_moves trivial src dg nowSecs : Moves (.quiet mayConfirm) pm _).changes

theorem onUdpDispatch_episode (handled : pm.onUdpDispatch src dg moment = some result) :
    Episode (pm.Confirms (pm.carried src dg) moment.nowMs) pm result.1 :=
  (onUdpDispatch_course src dg moment handled).episode

theorem onTunDispatch_changes (inner : List Byte) (moment : Moment) :
    Changes mayConfirm pm (pm.onTunDispatch inner moment).1 :=
  (onTunDispatch_moves trivial moment : Moves (.quiet mayConfirm) pm _).changes

theorem tickDispatch_changes : Changes mayConfirm pm (pm.tickDispatch moment).1 :=
  (tickDispatch_moves moment).changes.mono False.elim

end Chains

end PeerManager

end Yip
