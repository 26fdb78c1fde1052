/-
This file is about the counters a sharded node seals under.
-/

import Yip.PeerManager.Changes
import Yip.Sharding.Replicas

namespace Yip

open Crypto Transport List

namespace PeerManager

variable {env : Primitives} {occasion : Warrant} {pm after : PeerManager env}

/-! ### Buffered packets -/

def pendingOf (pm : PeerManager env) (idx : Nat) : List (List Byte) :=
  ((pm.peers[idx]?).map (·.pendingTun)).getD []

variable {peer : Peer env} {idx : Nat}

theorem pendingOf_eq (holds : pm.peers[idx]? = some peer) : pm.pendingOf idx = peer.pendingTun := by
  rw [pendingOf, holds]
  rfl

theorem pendingOf_modifyPeer {f : Peer env → Peer env}
    (keeps : ∀ peer, pm.peers[idx]? = some peer → (f peer).pendingTun = peer.pendingTun)
    (position : Nat) : (pm.modifyPeer idx f).pendingOf position = pm.pendingOf position := by
  unfold pendingOf
  rw [getElem?_modifyPeer]
  cases holds : pm.peers[position]? with
  | none => rfl
  | some peer =>
    split
    · rename_i own
      subst own
      exact keeps peer holds
    · rfl

theorem Touch.pendingTun_eq {touched : Peer env} (touch : Touch occasion pm peer touched)
    (noPacket : ∀ inner, ¬occasion.packet inner) (noClock : ¬occasion.clock) :
    touched.pendingTun = peer.pendingTun := by
  cases touch with
  | buffers inner given => exact absurd given (noPacket inner)
  | expires handshaking given => exact absurd given noClock
  | roams dg src =>
    unfold Peer.relearnEndpoint
    split
    · rfl
    · split
      · split <;> rfl
      · rfl
  | begins | asks | advances | learns | flags | detours | renews | installs | concludes | reverts
  | opens | seals | escalates | retargets | clocks | resends => rfl

theorem Quiet.pendingOf_eq (quiet : Quiet occasion pm after)
    (noPacket : ∀ inner, ¬occasion.packet inner) (noClock : ¬occasion.clock) (idx : Nat) :
    after.pendingOf idx = pm.pendingOf idx := by
  unfold pendingOf
  refine quiet.seat idx (fun _ => rfl) ?_ (fun _ _ _ => rfl) fun _ _ => rfl
  exact fun _ _ touch => touch.pendingTun_eq noPacket noClock

theorem Moves.pendingOf_eq (moves : Moves occasion pm after)
    (noPacket : ∀ inner, ¬occasion.packet inner) (noClock : ¬occasion.clock) (idx : Nat) :
    after.pendingOf idx = pm.pendingOf idx := by
  induction moves with
  | refl => rfl
  | tail _ quiet ih =>
    exact (quiet.pendingOf_eq noPacket noClock idx).trans ih

/-! ### Starts -/

structure Opening (pm after : PeerManager env) where
  idx : Nat
  peer : Peer env
  epochs : EpochSet env
  established : Established
  peerAddr : SocketAddr
  nowMs : Nat
  packets : List (List Byte)
  holds : after.peers[idx]? = some peer
  live : peer.state = .established epochs
  announced : after.newEpochs = pm.newEpochs ++ [epochMsg peer epochs.current]
  genuine : established.Genuine
  primed : packets = pm.pendingOf idx ∨ pm.pendingOf idx = [] ∧ packets = [[]]
  credentials : epochs.current.credentials = (pm.dataPlane established peerAddr).credentials
  session : epochs.current.session =
    (pm.strided (drainPending (pm.dataPlane established peerAddr) nowMs packets).1).session

theorem recordNewEpoch_newEpochs {f : Peer env → Peer env} {epochs : EpochSet env}
    {byTag : Nat → Option Nat} (holds : pm.peers[idx]? = some peer)
    (live : (f peer).state = .established epochs) :
    (({ pm with byTag := byTag }.modifyPeer idx f).recordNewEpoch idx).newEpochs =
      pm.newEpochs ++ [epochMsg (f peer) (pm.strided epochs.current)] := by
  have found : ({ pm with byTag := byTag }.modifyPeer idx f).peers[idx]? = some (f peer) :=
    getElem?_modifyPeer_of_holds holds f
  unfold recordNewEpoch
  simp only [found, live]
  rfl

theorem startSession_newEpochs (holds : pm.peers[idx]? = some peer) (established : Established)
    (peerAddr : SocketAddr) (viaRelay : Bool) (nowMs : Nat) :
    (pm.startSession idx established peerAddr viaRelay nowMs).1.newEpochs = pm.newEpochs ++
      [epochMsg peer (pm.startEpochs established peerAddr viaRelay nowMs
        peer.pendingTun).current] := by
  unfold startSession
  rw [holds]
  exact recordNewEpoch_newEpochs holds rfl

theorem strided_session (dp : DataPlane env) :
    (pm.strided dp).session =
      if pm.numShards > 1 then dp.session.setStride pm.shardId pm.numShards else dp.session := by
  unfold strided
  split <;> rfl

section Transfer

variable {base : PeerManager env}

theorem strided_congr (same : base.setting = pm.setting) (dp : DataPlane env) :
    base.strided dp = pm.strided dp := by
  have numShards : base.numShards = pm.numShards := congrArg Config.numShards same
  have shardId : base.shardId = pm.shardId := congrArg Config.shardId same
  unfold strided
  rw [numShards, shardId]

theorem dataPlane_congr (same : base.setting = pm.setting) (established : Established)
    (peerAddr : SocketAddr) :
    base.dataPlane established peerAddr = pm.dataPlane established peerAddr := by
  have l2 : base.l2 = pm.l2 := congrArg Config.l2 same
  have obfOn : base.obfOn = pm.obfOn := congrArg Config.obfOn same
  have size : base.dataSymbolSize = pm.dataSymbolSize := congrArg Config.dataSymbolSize same
  unfold dataPlane
  rw [l2, obfOn, size]

theorem Opening.transfer (opened : Nonempty (Opening base after))
    (same : base.setting = pm.setting) (newEpochs : base.newEpochs = pm.newEpochs)
    (pending : ∀ idx, base.pendingOf idx = pm.pendingOf idx) : Nonempty (Opening pm after) := by
  obtain ⟨opening⟩ := opened
  refine ⟨{ opening with announced := ?_, primed := ?_, credentials := ?_, session := ?_ }⟩
  · rw [← newEpochs]
    exact opening.announced
  · rw [← pending]
    exact opening.primed
  · rw [← dataPlane_congr same]
    exact opening.credentials
  · rw [← dataPlane_congr same, ← strided_congr same]
    exact opening.session

end Transfer

theorem startSession_opening (holds : pm.peers[idx]? = some peer) {established : Established}
    (genuine : established.Genuine) (peerAddr : SocketAddr) (viaRelay : Bool) (nowMs : Nat) :
    Nonempty (Opening pm (pm.startSession idx established peerAddr viaRelay nowMs).1) := by
  obtain ⟨bound, _⟩ := List.getElem?_eq_some_iff.mp holds
  refine ⟨{
    idx := idx
    peer := { peer with
      pendingTun := []
      state := .established
        (pm.startEpochs established peerAddr viaRelay nowMs peer.pendingTun) }
    epochs := pm.startEpochs established peerAddr viaRelay nowMs peer.pendingTun
    established := established
    peerAddr := peerAddr
    nowMs := nowMs
    packets := peer.pendingTun
    holds := ?_
    live := rfl
    announced := startSession_newEpochs holds established peerAddr viaRelay nowMs
    genuine := genuine
    primed := Or.inl (pendingOf_eq holds).symm
    credentials := ?_
    session := ?_ }⟩
  · rw [startSession_peers holds, getElem?_set_self bound]
  · refine (pm.strided_credentials _).trans (Eq.trans ?_ (drainPending_credentials _ nowMs
      peer.pendingTun))
    split <;> rfl
  · refine (strided_session _).trans (Eq.trans ?_ (strided_session _).symm)
    split <;> split <;> rfl

theorem rekey_opening {epochs : EpochSet env} {established : Established} {byTag : Nat → Option Nat}
    (holds : pm.peers[idx]? = some peer) (genuine : established.Genuine) (peerAddr : SocketAddr)
    (nowMs : Nat) : Nonempty (Opening pm (({ pm with byTag := byTag }.modifyPeer idx fun updated =>
      { updated with
        pendingTun := []
        state := .established (epochs.promoteFromRekey
          (drainPending (pm.dataPlane established peerAddr) nowMs
            (if peer.pendingTun.isEmpty then [[]] else peer.pendingTun)).1 nowMs) }).recordNewEpoch
      idx)) := by
  obtain ⟨bound, _⟩ := List.getElem?_eq_some_iff.mp holds
  refine ⟨{
    idx := idx
    peer := { peer with
      pendingTun := []
      state := .established (pm.rekeyEpochs epochs established peerAddr nowMs peer.pendingTun) }
    epochs := pm.rekeyEpochs epochs established peerAddr nowMs peer.pendingTun
    established := established
    peerAddr := peerAddr
    nowMs := nowMs
    packets := if peer.pendingTun.isEmpty then [[]] else peer.pendingTun
    holds := ?_
    live := rfl
    announced := ?_
    genuine := genuine
    primed := ?_
    credentials := ?_
    session := rfl }⟩
  · rw [recordNewEpoch_peers holds rfl, getElem?_set_self bound]
    rfl
  · rw [recordNewEpoch_newEpochs holds rfl]
    rfl
  · rw [pendingOf_eq holds]
    split
    · rename_i empty
      exact Or.inr ⟨isEmpty_iff.mp empty, rfl⟩
    · exact Or.inl rfl
  · exact (pm.strided_credentials _).trans (drainPending_credentials _ nowMs _)

theorem Starts.opening (starts : Starts occasion pm after) : Nonempty (Opening pm after) := by
  cases starts with
  | responds idx peer init peerAddr viaRelay moment holds waiting given genuine admits fresh =>
    have kept : (pm.keepInit idx init).peers[idx]? = some _ := getElem?_modifyPeer_of_holds holds _
    refine Opening.transfer (startSession_opening (getElem?_modifyPeer_of_holds kept _) genuine ..)
      rfl rfl fun position => ?_
    refine (pendingOf_modifyPeer ?_ position).trans (pendingOf_modifyPeer ?_ position)
    all_goals exact fun _ _ => rfl
  | completes idx peer handshaking dg established payload peerAddr viaRelay moment holds live given
      read admits =>
    have reverted := getElem?_modifyPeer_of_holds holds fun peer => { peer with state := .idle }
    have kept : ((pm.modifyPeer idx fun peer => { peer with state := .idle }).keepResp idx
        payload).peers[idx]? = some _ := getElem?_modifyPeer_of_holds reverted _
    refine Opening.transfer (startSession_opening (getElem?_modifyPeer_of_holds kept _)
      (readResponse_genuine read) ..) rfl rfl fun position => ?_
    refine ((pendingOf_modifyPeer ?_ position).trans (pendingOf_modifyPeer ?_ position)).trans
      (pendingOf_modifyPeer ?_ position)
    all_goals exact fun _ _ => rfl
  | rekeys idx peer epochs rekey dg established payload viaRelay moment holds live inFlight given
      read admits =>
    have taken := getElem?_modifyPeer_of_holds holds fun peer =>
      { peer with state := .established { epochs with rekey := none } }
    have renewed : ((pm.modifyPeer idx fun peer =>
        { peer with state := .established { epochs with rekey := none } }).renewAdmission idx
          payload).peers[idx]? = some _ := getElem?_modifyPeer_of_holds taken _
    refine Opening.transfer (rekey_opening renewed (readResponse_genuine read) ..) rfl rfl
      fun position => ?_
    refine (pendingOf_modifyPeer ?_ position).trans (pendingOf_modifyPeer ?_ position)
    all_goals exact fun _ _ => rfl

theorem Quiet.newEpochs_eq (quiet : Quiet occasion pm after) : after.newEpochs = pm.newEpochs := by
  cases quiet with
  | drop idx =>
    unfold dropSession
    split <;> rfl
  | touch | enters | aside => rfl

theorem Moves.newEpochs_eq (moves : Moves occasion pm after) : after.newEpochs = pm.newEpochs := by
  induction moves with
  | refl => rfl
  | tail _ quiet ih => exact quiet.newEpochs_eq.trans ih

theorem onUdpDispatch_opening {src : SocketAddr} {dg : List Byte} {moment : Moment}
    {result : PeerManager env × DispatchOut}
    (handled : pm.onUdpDispatch src dg moment = some result)
    (queued : result.1.newEpochs ≠ pm.newEpochs) : Nonempty (Opening pm result.1) := by
  obtain ⟨quiet, moves, same | starts⟩ := onUdpDispatch_course src dg moment handled
  · rw [same] at queued
    exact absurd moves.newEpochs_eq queued
  · exact Opening.transfer starts.opening moves.setting_eq moves.newEpochs_eq
      (moves.pendingOf_eq (fun _ => id) id)

end PeerManager

/-! ### Replicas of an opened epoch -/

open PeerManager

namespace Replicas

variable {env : Primitives} {pm after : PeerManager env}

def logged (dp : DataPlane env) : List DataPlane.Event → List (Key × Nat)
  | [] => []
  | event :: rest => logged (dp.step event) rest ++ entries dp event

def drainEvents (nowMs : Nat) (packets : List (List Byte)) : List DataPlane.Event :=
  packets.map fun inner => .tun inner nowMs

theorem drainPending_eq_run (dp : DataPlane env) (nowMs : Nat) (packets : List (List Byte)) :
    (drainPending dp nowMs packets).1 =
      Machine.run DataPlane.step dp (drainEvents nowMs packets) := by
  induction packets generalizing dp with
  | nil => rfl
  | cons inner rest ih => exact ih (dp.onTunPacket inner nowMs).1

def opened (opening : Opening pm after) : Replicas env where
  numShards := pm.numShards
  msg := epochMsg opening.peer opening.epochs.current
  plane := fun shardId => if shardId = 0 then some opening.epochs.current else none
  sealed := logged (pm.dataPlane opening.established opening.peerAddr)
    (drainEvents opening.nowMs opening.packets)
  accepted := []
  written := []

theorem opened_plane_zero (opening : Opening pm after) :
    (opened opening).plane 0 = some opening.epochs.current := rfl

theorem opened_plane_of_ne (opening : Opening pm after) {shardId : Nat} (worker : shardId ≠ 0) :
    (opened opening).plane shardId = none := by
  simp only [opened, if_neg worker]

theorem dataPlane_session (opening : Opening pm after) :
    (pm.dataPlane opening.established opening.peerAddr).session =
      Session.fromRawKeys opening.established.rawSendKey opening.established.rawRecvKey 0 1 :=
  opening.genuine

theorem opened_session (opening : Opening pm after) (sharded : 2 ≤ pm.numShards) :
    opening.epochs.current.session =
      (Machine.run DataPlane.step (pm.dataPlane opening.established opening.peerAddr)
        (drainEvents opening.nowMs opening.packets)).session.setStride pm.shardId pm.numShards := by
  rw [opening.session, strided_session, if_pos (by omega), drainPending_eq_run]

theorem setStride_zero {session : Session} {numShards : Nat} (sharded : 2 ≤ numShards)
    (few : session.sendCounter ≤ 1) :
    (session.setStride 0 numShards).stride = numShards ∧
      ((session.setStride 0 numShards).HasRoom →
        (session.setStride 0 numShards).sendCounter % numShards = 0) ∧
      (session.sendCounter = 1 → 0 < (session.setStride 0 numShards).sendCounter) := by
  have stride : (session.setStride 0 numShards).stride = numShards := if_neg (by omega)
  unfold Session.HasRoom
  rw [stride]
  unfold Session.setStride
  rw [if_neg (show numShards ≠ 0 by omega)]
  rcases Nat.le_one_iff_eq_zero_or_eq_one.mp few with unused | once
  · simp [unused]
  · have remainder : 1 % numShards = 1 := Nat.mod_eq_of_lt (by omega)
    have next : 1 + (numShards - 1) = numShards := by omega
    simp only [once, remainder, Nat.zero_mod, Nat.one_ne_zero, if_false,
      if_neg (show ¬(1 : Nat) ≤ 0 by decide), Nat.sub_zero, saturatingAdd, next, u64Limit, true_and]
    refine ⟨fun room => ?_, fun _ => by omega⟩
    rw [min_eq_left (by omega), Nat.mod_self]

section

variable (opening : Opening pm after)

include opening

theorem logged_few (few : opening.packets.length ≤ 1) :
    let dp := pm.dataPlane opening.established opening.peerAddr
    let drained := Machine.run DataPlane.step dp (drainEvents opening.nowMs opening.packets)
    drained.session.sendCounter = 0 ∧ (opened opening).sealed = [] ∨
      drained.session.sendCounter = 1 ∧ (opened opening).sealed = [(dp.session.sendKey, 0)] := by
  intro dp drained
  have session : dp.session = _ := dataPlane_session opening
  rcases packets : opening.packets with _ | ⟨inner, rest⟩
  · left
    simp only [drained, opened, packets, drainEvents, map_nil, Machine.run_nil, logged,
      session, Session.fromRawKeys, and_self]
  · obtain rfl : rest = [] := by
      rw [packets] at few
      exact length_eq_zero_iff.mp (Nat.le_zero.mp (Nat.le_of_succ_le_succ few))
    right
    have counter := (dp.step_sendCounter (.tun inner opening.nowMs)).2
    rw [session, if_pos ⟨rfl, show (0 : Nat) + 1 < u64Limit by decide⟩] at counter
    refine ⟨?_, ?_⟩
    · simp only [drained, packets, drainEvents, map_cons, map_nil, Machine.run_cons,
        Machine.run_nil, counter, Session.fromRawKeys]
      rfl
    · simp only [opened, packets, drainEvents, map_cons, map_nil, logged, entries,
        DataPlane.seals, if_true, nil_append]
      rw [show (pm.dataPlane opening.established opening.peerAddr).session.sendCounter = 0 by
        rw [dataPlane_session]; rfl]

theorem packets_length (few : (pm.pendingOf opening.idx).length ≤ 1) :
    opening.packets.length ≤ 1 := by
  rcases opening.primed with same | ⟨_, single⟩
  · rw [same]
    exact few
  · rw [single]
    exact le_rfl

theorem opened_partitioned (first : pm.shardId = 0) (sharded : 2 ≤ pm.numShards)
    (few : (pm.pendingOf opening.idx).length ≤ 1) : (opened opening).Partitioned := by
  have drained := logged_few opening (packets_length opening few)
  have session := opened_session opening sharded
  rw [first] at session
  obtain ⟨stride, residue, past⟩ := setStride_zero sharded
    (drained.elim (fun unused => unused.1.trans_le zero_le_one) fun once => once.1.le)
  rw [← session] at stride residue past
  have numShards : (opened opening).numShards = pm.numShards := rfl
  refine ⟨?_, ?_, ?_⟩
  · intro shardId dp present
    by_cases zero : shardId = 0
    · subst zero
      rw [opened_plane_zero, Option.some.injEq] at present
      subst present
      exact ⟨by omega, stride, residue⟩
    · rw [opened_plane_of_ne opening zero] at present
      cases present
  · intro entry member
    rcases drained with ⟨_, nothing⟩ | ⟨once, single⟩
    · rw [nothing] at member
      cases member
    · rw [single, mem_singleton] at member
      subst member
      exact ⟨_, (congrArg _ (Nat.zero_mod _)).trans (opened_plane_zero opening), past once⟩
  · rcases drained with ⟨_, nothing⟩ | ⟨_, single⟩
    · rw [nothing]
      exact nodup_nil
    · rw [single]
      exact nodup_singleton _

theorem second_packet_logged (many : 2 ≤ (pm.pendingOf opening.idx).length) :
    (opening.established.rawSendKey, 1) ∈ (opened opening).sealed := by
  have same : opening.packets = pm.pendingOf opening.idx := by
    rcases opening.primed with same | ⟨empty, _⟩
    · exact same
    · rw [empty] at many
      cases many
  rw [← same] at many
  rcases packets : opening.packets with _ | ⟨inner, _ | ⟨second, rest⟩⟩
  · rw [packets] at many
    cases many
  · rw [packets] at many
    cases many with | step impossible => cases impossible
  · have session := dataPlane_session opening
    have counter := ((pm.dataPlane opening.established opening.peerAddr).step_sendCounter
      (.tun inner opening.nowMs)).2
    rw [session, if_pos ⟨rfl, show (0 : Nat) + 1 < u64Limit by decide⟩] at counter
    have key := congrArg Credentials.sendKey ((pm.dataPlane opening.established
      opening.peerAddr).step_credentials (.tun inner opening.nowMs))
    rw [show (pm.dataPlane opening.established opening.peerAddr).credentials.sendKey =
      opening.established.rawSendKey from congrArg Session.sendKey session] at key
    simp only [opened, packets, drainEvents, map_cons, logged]
    refine mem_append_left _ (mem_append_right _ ?_)
    simp only [entries, DataPlane.seals, if_true, mem_singleton, counter, Prod.mk.injEq]
    exact ⟨key.symm, rfl⟩

theorem second_packet_collides (sharded : 2 ≤ pm.numShards)
    (many : 2 ≤ (pm.pendingOf opening.idx).length) (room : 1 + pm.numShards < u64Limit) :
    ∃ events, Machine.Admissible step Roomy (opened opening) events ∧
      ¬(Machine.run step (opened opening) events).sealed.Nodup := by
  obtain ⟨dp, installed⟩ : ∃ dp, after.installedPlane (opened opening).msg 1 pm.numShards =
      some dp :=
    installedPlane_of_known 1 pm.numShards
      ⟨opening.peer, mem_of_getElem? opening.holds, rfl⟩
  have session := installedPlane_session installed
  have numShards : 1 < (opened opening).numShards := sharded
  obtain ⟨present, kept⟩ := step_deliver Nat.one_pos numShards
    (opened_plane_of_ne opening Nat.one_ne_zero) installed
  have key : dp.session.sendKey = opening.established.rawSendKey := by
    rw [session]
    exact congrArg Credentials.rawSendKey opening.credentials
  refine ⟨[.deliver 1 after, .act 1 (.tun [] 0)], ⟨trivial, ?_, trivial⟩, ?_⟩
  · intro plane held _
    rw [present, Option.some.injEq] at held
    subst held
    rw [session, Session.HasRoom, Session.fromRawKeys, if_neg (by omega)]
    exact room
  · have sealed : (Machine.run step (opened opening)
        [.deliver 1 after, .act 1 (.tun [] 0)]).sealed =
        (dp.session.sendKey, dp.session.sendCounter) :: (opened opening).sealed := by
      rw [Machine.run_cons, Machine.run_cons, Machine.run_nil, step_act present, acted, kept]
      rfl
    rw [sealed, key, session]
    exact fun unique => (nodup_cons.mp unique).1 (second_packet_logged opening many)

end

/-- Whenever a datagram makes shard 0 of a sharded node start an epoch, in whatever role: if at most
one packet was buffered for the peer, then the node never gives a key and a counter to the cipher
twice, whichever workers take the epoch and however the shards use it, as long as no counter runs
out. If more were buffered, worker 1 can make it do so. -/
theorem node_seals_uniquely {src : SocketAddr} {dg : List Byte} {moment : Moment}
    {result : PeerManager env × DispatchOut}
    (handled : pm.onUdpDispatch src dg moment = some result)
    (queued : result.1.newEpochs ≠ pm.newEpochs) (first : pm.shardId = 0)
    (sharded : 2 ≤ pm.numShards) :
    Nonempty (Opening pm result.1) ∧ ∀ opening : Opening pm result.1,
      ((pm.pendingOf opening.idx).length ≤ 1 → ∀ events,
        Machine.Admissible step Roomy (opened opening) events →
          (Machine.run step (opened opening) events).sealed.Nodup) ∧
      (2 ≤ (pm.pendingOf opening.idx).length → 1 + pm.numShards < u64Limit → ∃ events,
        Machine.Admissible step Roomy (opened opening) events ∧
          ¬(Machine.run step (opened opening) events).sealed.Nodup) := by
  refine ⟨onUdpDispatch_opening handled queued, fun opening => ⟨fun few events roomy => ?_, ?_⟩⟩
  · exact ((opened_partitioned opening first sharded few).run events roomy).unique
  · exact fun many room => second_packet_collides opening sharded many room

section Runs

open Transparent

def waiting (packets : List (List Byte)) : PeerManager (primitives .bulk) :=
  Machine.run shardStep (PeerManager.new (config 2 [1] none 0 2))
    (packets.map fun inner => .own (.tun inner (moment 0 0 1 7)))

def answered (packets : List (List Byte)) : Option (PeerManager (primitives .bulk) × DispatchOut) :=
  (waiting packets).onUdpDispatch ⟨1, 1⟩ (init 1 9 10 []) (moment 1 0 0 8)

/-- With one packet buffered, no run repeats a counter. -/
theorem single_packet_sealed_uniquely :
    ∃ result, answered [[0]] = some result ∧ ∃ opening : Opening (waiting [[0]]) result.1,
      ∀ events, Machine.Admissible step Roomy (opened opening) events →
        (Machine.run step (opened opening) events).sealed.Nodup := by
  have queues : (answered [[0]]).any (fun result => decide (result.1.newEpochs ≠ [])) = true := by
    decide +kernel
  simp only [Option.any_eq_true, decide_eq_true_eq] at queues
  obtain ⟨result, handled, queued⟩ := queues
  have before : (waiting [[0]]).newEpochs = [] := by decide +kernel
  obtain ⟨⟨opening⟩, unique⟩ := node_seals_uniquely handled (before ▸ queued) (by decide +kernel)
    (by decide +kernel)
  have few : ∀ idx, ((waiting [[0]]).pendingOf idx).length ≤ 1 := by
    rintro (_ | idx)
    · decide +kernel
    · have single : (waiting [[0]]).peers.length = 1 := by decide +kernel
      rw [pendingOf, getElem?_eq_none (by omega)]
      exact Nat.zero_le 1
  exact ⟨result, handled, opening, (unique opening).1 (few _)⟩

def follower (zero : PeerManager (primitives .bulk)) : PeerManager (primitives .bulk) :=
  zero.newEpochs.foldl (fun pm msg =>
    pm.installEstablishedSession msg.peerPk (msg.established 1 2) msg.endpoint)
    (PeerManager.new (config 2 [1] none 1 2))

def shown (pm : PeerManager (primitives .bulk)) (sent : List EgressDatagram) :
    Option (Key × List (Option Nat)) :=
  (pm.currentPlane (key 1)).map fun dp =>
    (dp.session.sendKey, sent.map fun datagram => heardCounter sip dp.codec datagram.bytes)

/-- With two packets buffered, shard 0 answers the Init and seals the packets under counters 0 and
1. The first packet that the other shard seals goes out under the same key and counter 1 again. -/
theorem buffered_packets_share_counter :
    ∃ key, ((answered [[0], [1]]).bind fun result => shown result.1 result.2.udp) =
        some (key, [none, some 0, some 1]) ∧
      ((answered [[0], [1]]).bind fun result => shown (follower result.1)
        ((follower result.1).onTunDispatch [1] (moment 2 0 0 9)).2) = some (key, [some 1]) :=
  ⟨[2, 0, 0, 9, 0, 0, 0, 8].map Byte.ofNat, by decide +kernel, by decide +kernel⟩

end Runs

end Replicas

end Yip
