/-
This file is about the labels of Inits over whole runs.
-/

import Yip.PeerManager.Changes
import Yip.PeerManager.StaleInit

namespace Yip

open Crypto Transport List Option

def Established.credentials (established : Established) : Credentials :=
  ⟨established.session.sendKey, established.session.recvKey, established.rawSendKey,
    established.rawRecvKey, established.authKey, established.hpKey,
    ⟨established.authKey, established.hpKey⟩,
    connTagFromKeys established.authKey established.hpKey⟩

/-! ### The keys of the epochs -/

namespace EpochSet

variable {env : Primitives}

def keys (set : EpochSet env) : List Credentials :=
  set.current.credentials :: (set.next.map (·.dp.credentials)).toList

theorem inboundOpen_keys (set : EpochSet env) (datagram : List Byte) (nowMs : Nat) :
    (set.inboundOpen datagram nowMs).1.keys ⊆ set.keys := by
  have kept (dp : DataPlane env) := (dp.onUdpDatagram_acts datagram nowMs).credentials
  obtain ⟨_, ⟨current, next⟩ | ⟨next, isNext, alone, current, _⟩⟩ :=
    set.inboundOpen_cases datagram nowMs
  · rcases next with same | moved
    · simp [keys, current, kept, same]
    · simp [keys, current, kept, moved, Function.comp_def]
  · simp [keys, current, kept, alone, isNext]

theorem setPeerAddr_keys (set : EpochSet env) (addr : SocketAddr) :
    (set.setPeerAddr addr).keys = set.keys := by
  have moved (dp : DataPlane env) : (dp.setPeerAddr addr).credentials = dp.credentials :=
    (dp.setPeerAddr_acts addr).credentials
  unfold keys setPeerAddr
  cases set.next <;> simp [moved]

end EpochSet

namespace PeerManager

variable {env : Primitives} {occasion : Occasion} {warrant : Warrant} {pm after : PeerManager env}

theorem dataPlane_credentials (pm : PeerManager env) (established : Established)
    (peerAddr : SocketAddr) :
    (pm.dataPlane established peerAddr).credentials = established.credentials := rfl

theorem startEpochs_keys (pm : PeerManager env) (established : Established)
    (peerAddr : SocketAddr) (viaRelay : Bool) (nowMs : Nat) (pending : List (List Byte)) :
    (pm.startEpochs established peerAddr viaRelay nowMs pending).keys =
      [established.credentials] := by
  have drained := drainPending_credentials (pm.dataPlane established peerAddr) nowMs pending
  rw [dataPlane_credentials] at drained
  unfold startEpochs EpochSet.keys
  rw [strided_credentials]
  cases viaRelay
  · exact congrArg (· :: []) drained
  · exact congrArg (· :: []) drained

theorem driveRekeySchedule_next (idx : Nat) (peer : Peer env) (epochs : EpochSet env)
    (moment : Moment) : (pm.driveRekeySchedule idx peer epochs moment).1.next = epochs.next := by
  unfold driveRekeySchedule
  split
  · dsimp only
    split
    · rfl
    · split <;> rfl
  · split
    · rfl
    · split <;> rfl

theorem retirePreviousIfDue_next (epochs : EpochSet env) (nowMs : Nat) :
    (epochs.retirePreviousIfDue nowMs).next = epochs.next := by
  unfold EpochSet.retirePreviousIfDue
  split <;> rfl

/-! ### One peer through one event -/

def epochsOf (peer : Option (Peer env)) : Option (EpochSet env) :=
  peer.bind fun peer =>
    match peer.state with
    | .established epochs => some epochs
    | .idle | .handshaking _ => none

def heldKeys (peer : Option (Peer env)) : List Credentials :=
  (epochsOf peer).elim [] EpochSet.keys

def recorded (peer : Option (Peer env)) : Option Nat :=
  peer.bind (·.lastAcceptedInitTs)

/-- Only an Init can have caused it. -/
structure Occasion.InitOnly (occasion : Occasion) : Prop where
  resp : ∀ dg, ¬occasion.resp dg
  data : ∀ dg, ¬occasion.data dg
  packet : ∀ inner, ¬occasion.packet inner
  clock : ¬occasion.clock

/-- What an event can do to a peer's timestamp, session and keys. -/
structure Traced (occasion : Occasion) (floor : Nat) (before after : Option (Peer env)) :
    Prop where
  label : recorded after = recorded before ∨ ∃ init, occasion.init init ∧
    (recorded before).getD floor < init.initTs ∧ recorded after = some init.initTs
  session : occasion.InitOnly → recorded after = recorded before →
    ∀ epochs, epochsOf after = some epochs → epochsOf before = some epochs
  keys : ∀ key ∈ heldKeys after, key ∈ heldKeys before ∨ (∃ dg, occasion.resp dg) ∨
    ∃ init, occasion.init init ∧ recorded after = some init.initTs ∧
      key = init.established.credentials

variable {floor : Nat} {before between afterwards : Option (Peer env)}

theorem Traced.of_same (label : recorded afterwards = recorded before)
    (same : epochsOf afterwards = epochsOf before) : Traced occasion floor before afterwards := by
  refine ⟨Or.inl label, fun _ _ epochs live => same ▸ live, fun key held => Or.inl ?_⟩
  unfold heldKeys at held ⊢
  exact same ▸ held

theorem Traced.refl (peer : Option (Peer env)) : Traced occasion floor peer peer :=
  .of_same rfl rfl

theorem Traced.of_no_session (label : recorded afterwards = recorded before)
    (ended : epochsOf afterwards = none) : Traced occasion floor before afterwards := by
  refine ⟨Or.inl label, fun _ _ epochs live => ?_, fun key held => ?_⟩
  · rw [ended] at live
    cases live
  · rw [heldKeys, ended] at held
    cases held

theorem Traced.of_elsewhere (elsewhere : ∃ dg, occasion.resp dg)
    (label : recorded afterwards = recorded before) : Traced occasion floor before afterwards := by
  obtain ⟨dg, given⟩ := elsewhere
  exact ⟨Or.inl label, fun only => absurd given (only.resp dg),
    fun _ _ => Or.inr (Or.inl ⟨dg, given⟩)⟩

theorem Traced.trans (single : ∀ first second, occasion.init first → occasion.init second →
      first = second)
    (early : Traced occasion floor before between)
    (late : Traced occasion floor between afterwards) :
    Traced occasion floor before afterwards := by
  -- Once the Init of the event has been accepted its label is not fresh any more.
  have once (init : InitRead) (given : occasion.init init)
      (label : recorded between = some init.initTs) :
      recorded afterwards = recorded between := by
    rcases late.label with same | ⟨again, givenAgain, fresh, _⟩
    · exact same
    · cases single init again given givenAgain
      simp [label] at fresh
  refine ⟨?_, fun only unchanged epochs live => ?_, fun key held => ?_⟩
  · rcases early.label with same | ⟨init, given, fresh, label⟩
    · rw [← same]
      exact late.label
    · exact Or.inr ⟨init, given, fresh, (once init given label).trans label⟩
  · rcases early.label with same | ⟨init, given, fresh, label⟩
    · exact early.session only same epochs
        (late.session only (unchanged.trans same.symm) epochs live)
    · rw [← unchanged, once init given label, label] at fresh
      simp at fresh
  · rcases late.keys key held with held | resp | ⟨init, given, label, same⟩
    · rcases early.keys key held with held | resp | ⟨init, given, label, same⟩
      · exact Or.inl held
      · exact Or.inr (Or.inl resp)
      · exact Or.inr (Or.inr ⟨init, given, (once init given label).trans label, same⟩)
    · exact Or.inr (Or.inl resp)
    · exact Or.inr (Or.inr ⟨init, given, label, same⟩)

theorem fresh_iff (pm : PeerManager env) (peer : Peer env) (ts : Nat) :
    pm.acceptFreshInit peer ts = true ↔ (recorded (some peer)).getD pm.bootFloorTs < ts := by
  unfold acceptFreshInit recorded
  cases label : peer.lastAcceptedInitTs <;> simp [label]

theorem epochsOf_of_established {peer : Peer env} {epochs : EpochSet env}
    (live : peer.state = .established epochs) : epochsOf (some peer) = some epochs := by
  simp [epochsOf, live]

theorem Traced.of_epochs {peer updated : Peer env} {old epochs : EpochSet env}
    (label : updated.lastAcceptedInitTs = peer.lastAcceptedInitTs) (other : ¬occasion.InitOnly)
    (had : peer.state = .established old) (has : updated.state = .established epochs)
    (keys : epochs.keys ⊆ old.keys) : Traced occasion floor (some peer) (some updated) := by
  refine ⟨Or.inl label, fun only => absurd only other, fun key held => Or.inl ?_⟩
  rw [heldKeys, epochsOf_of_established has] at held
  rw [heldKeys, epochsOf_of_established had]
  exact keys held

theorem relearnEndpoint_traced (peer : Peer env) (src : SocketAddr) (other : ¬occasion.InitOnly) :
    Traced occasion floor (some peer) (some (peer.relearnEndpoint src)) := by
  rcases peer.relearnEndpoint_cases src with same | ⟨addr, moved⟩
  · rw [same]
    exact .refl _
  · rw [moved]
    cases state : peer.state with
    | idle | handshaking => exact .of_no_session rfl (by simp [epochsOf, Peer.moveTo, state])
    | established epochs =>
      refine .of_epochs rfl other state (Peer.moveTo_of_live state addr) ?_
      rw [epochs.setPeerAddr_keys addr]
      exact List.Subset.refl _

theorem Touch.traced {peer touched : Peer env} (touch : Touch warrant pm peer touched) :
    Traced warrant pm.bootFloorTs (some peer) (some touched) := by
  cases touch with
  | begins | reverts | escalates | retargets | resends | expires => exact .of_no_session rfl rfl
  | asks | advances | learns | buffers | flags | detours | renews => exact .of_same rfl rfl
  | installs init initEph peerAddr epochs given live fresh =>
    have newer := (fresh_iff pm peer init.initTs).mp fresh
    refine ⟨Or.inr ⟨init, given, newer, rfl⟩, fun _ unchanged => ?_, fun key held => ?_⟩
    · rw [← unchanged] at newer
      simp [recorded] at newer
    · rw [heldKeys, epochsOf_of_established live]
      rcases mem_pair.mp held with same | same
      · exact Or.inl (same ▸ mem_cons_self)
      · exact Or.inr (Or.inr ⟨init, given, rfl, same⟩)
  | concludes dg epochs given live =>
    exact .of_epochs rfl (fun only => only.resp dg given) live rfl (List.Subset.refl _)
  | opens dg nowMs epochs given live =>
    exact .of_epochs rfl (fun only => only.data dg given) live rfl
      (epochs.inboundOpen_keys dg nowMs)
  | roams dg src given => exact relearnEndpoint_traced peer src fun only => only.data dg given
  | seals inner nowMs epochs given live =>
    refine .of_epochs rfl (fun only => only.packet inner given) live rfl ?_
    have keys := (epochs.current.onTunPacket_acts inner nowMs).credentials
    simp [EpochSet.keys, keys]
  | clocks idx moment jittered epochs scheduled given live schedule =>
    refine .of_epochs rfl (fun only => only.clock given) live rfl ?_
    have keys := (scheduled.current.tick_acts moment.nowMs jittered).credentials
    have current : scheduled.current = epochs.current := by
      rw [schedule, driveRekeySchedule_current, retirePreviousIfDue_current]
    have next : scheduled.next = epochs.next := by
      rw [schedule, driveRekeySchedule_next, retirePreviousIfDue_next]
    rw [current] at keys
    simp [EpochSet.keys, keys, current, next]

theorem Begun.traced {peer begun : Peer env} (start : Begun warrant pm peer begun) :
    Traced warrant pm.bootFloorTs (some peer) (some begun) := by
  cases start with
  | responds init peerAddr viaRelay moment waiting given admits fresh =>
    have newer := (fresh_iff pm peer init.initTs).mp fresh
    refine ⟨Or.inr ⟨init, given, newer, rfl⟩, fun _ unchanged => ?_, fun key held => ?_⟩
    · rw [← unchanged] at newer
      simp [recorded] at newer
    · rw [heldKeys, epochsOf_of_established rfl, elim_some, startEpochs_keys] at held
      exact Or.inr (Or.inr ⟨init, given, rfl, mem_singleton.mp held⟩)
  | completes handshaking dg established payload peerAddr viaRelay moment live given =>
    exact .of_elsewhere ⟨dg, given⟩ rfl
  | rekeys epochs rekey dg established payload viaRelay moment live inFlight given =>
    exact .of_elsewhere ⟨dg, given⟩ rfl

theorem pushPeer_traced (position : Nat) {peer : Peer env} (idle : peer.state = .idle)
    (unlabelled : peer.lastAcceptedInitTs = none) :
    Traced occasion floor pm.peers[position]? (pm.pushPeer peer).peers[position]? := by
  rcases pm.getElem?_pushPeer peer position with kept | ⟨empty, added⟩
  · rw [kept]
    exact .refl _
  · rw [empty, added]
    exact .of_no_session unlabelled (by simp [epochsOf, idle])

theorem Quiet.traced (quiet : Quiet warrant pm after) (position : Nat) :
    Traced warrant pm.bootFloorTs pm.peers[position]? after.peers[position]? := by
  refine quiet.seat position .refl (fun _ _ touch => touch.traced) ?_ ?_
  · exact fun _ _ _ => .of_no_session rfl rfl
  · exact fun _ _ => .of_no_session rfl rfl

theorem Moves.traced
    (single : ∀ first second, warrant.init first → warrant.init second → first = second)
    (moves : Moves warrant pm after) (position : Nat) :
    Traced warrant pm.bootFloorTs pm.peers[position]? after.peers[position]? := by
  induction moves with
  | refl => exact .refl _
  | @tail between _ moves quiet ih =>
    have floor : between.bootFloorTs = pm.bootFloorTs :=
      congrArg Config.bootFloorTs (Moves.setting_eq moves)
    exact ih.trans single (floor ▸ quiet.traced position)

theorem Moves.recorded_eq (moves : Moves .none pm after) (position : Nat) :
    recorded after.peers[position]? = recorded pm.peers[position]? := by
  have traced := moves.traced (fun _ _ given => False.elim given) position
  rcases traced.label with same | ⟨_, given, _⟩
  · exact same
  · exact given.elim

theorem Starts.traced (starts : Starts warrant pm after) (position : Nat) :
    Traced warrant pm.bootFloorTs pm.peers[position]? after.peers[position]? :=
  starts.seat position .refl fun _ _ start => start.traced

theorem Course.traced
    (single : ∀ first second, warrant.init first → warrant.init second → first = second)
    (course : Course warrant pm after) (position : Nat) :
    Traced warrant pm.bootFloorTs pm.peers[position]? after.peers[position]? := by
  obtain ⟨quiet, moves, rfl | starts⟩ := course
  · exact moves.traced single position
  · have floor : quiet.bootFloorTs = pm.bootFloorTs := congrArg Config.bootFloorTs moves.setting_eq
    exact (moves.traced single position).trans single (floor ▸ starts.traced position)

/-! ### One peer through a run -/

/-- Where the watched peer stands after the event: a removal moves up those behind. -/
def follow (pm : PeerManager env) (idx : Nat) : ShardEvent → Nat
  | .own (.removePeer pubkey) =>
    (pm.byNode (env.nodeId pubkey)).elim idx fun removed => IndexTable.shiftDown removed idx
  | _ => idx

theorem follow_of_unknown {event : ShardEvent}
    (unknown : ∀ pubkey, event = .own (.removePeer pubkey) → pm.byNode (env.nodeId pubkey) = none)
    (idx : Nat) : pm.follow idx event = idx := by
  unfold follow
  split
  · rw [unknown _ rfl]
    rfl
  · rfl

theorem follow_of_ne {event : Event} (kept : ∀ pubkey, event ≠ .removePeer pubkey) (idx : Nat) :
    pm.follow idx (.own event) = idx :=
  follow_of_unknown (fun pubkey same => absurd (ShardEvent.own.inj same) (kept pubkey)) idx

theorem getElem?_follow_of_removed {pubkey : Key} {removed idx : Nat}
    (found : pm.byNode (env.nodeId pubkey) = some removed)
    (peers : after.peers = (pm.dropSession removed).peers.eraseIdx removed)
    (apart : idx ≠ removed) :
    after.peers[pm.follow idx (.own (.removePeer pubkey))]? = pm.peers[idx]? := by
  have moved : pm.follow idx (.own (.removePeer pubkey)) = IndexTable.shiftDown removed idx := by
    simp [follow, found]
  rw [moved, peers, IndexTable.getElem?_eraseIdx_shiftDown apart,
    dropSession_getElem?_of_ne pm apart]

def Stays (pm : PeerManager env) (idx : Nat) : ShardEvent → Prop
  | .own (.removePeer pubkey) => pm.byNode (env.nodeId pubkey) ≠ some idx
  | _ => True

def shardOccasion (pm : PeerManager env) : ShardEvent → Occasion
  | .own event => pm.eventOccasion event
  | .install .. => { Occasion.none with resp := fun _ => True }

theorem shardOccasion_single (event : ShardEvent) (first second : InitRead)
    (one : (pm.shardOccasion event).init first) (other : (pm.shardOccasion event).init second) :
    first = second := by
  cases event with
  | install => exact one.elim
  | own event =>
    cases event with
    | udp src dg moment => exact some.inj (Eq.trans (Eq.symm one) other)
    | tun | tick | addPeer | admitMember | removePeer | drainNewEpochs => exact one.elim

theorem initOnly_of_readInit {src : SocketAddr} {dg : List Byte} {moment : Moment} {init : InitRead}
    (read : pm.readInit (pm.carried src dg) moment = some init) :
    (pm.shardOccasion (.own (.udp src dg moment))).InitOnly := by
  obtain ⟨message, carries⟩ := readInit_kind read
  refine ⟨fun response given => ?_, fun data given => ?_, fun _ => id, id⟩
  · have kind := given.2
    rw [carries] at kind
    exact absurd (some.inj kind) (by decide)
  · exact given.2.1 (by rw [carries]; rfl)

theorem Stepped.traced {event : ShardEvent} (stepped : pm.Stepped event after) {idx : Nat}
    (stays : pm.Stays idx event) :
    Traced (pm.shardOccasion event) pm.bootFloorTs pm.peers[idx]?
      after.peers[pm.follow idx event]? := by
  cases stepped with
  | course event after kept course =>
    rw [follow_of_ne kept]
    exact course.traced (shardOccasion_single (.own event)) idx
  | added pubkey endpoint => exact pushPeer_traced idx rfl rfl
  | removed pubkey removed after found setting peers =>
    have apart : idx ≠ removed := fun same => stays (same ▸ found)
    rw [getElem?_follow_of_removed found peers apart]
    exact .refl _
  | drained => exact .refl _
  | installed peerPk established endpoint admitted after position addr moves setting peers =>
    refine .of_elsewhere ⟨[], trivial⟩ ?_
    have label := moves.recorded_eq idx
    rw [← label, peers, getElem?_modify]
    change recorded ((admitted.peers[idx]?).map _) = recorded admitted.peers[idx]?
    cases admitted.peers[idx]? with
    | none => rfl
    | some peer =>
      rw [map_some]
      split <;> rfl
  | unknown peerPk established endpoint after moves =>
    exact .of_elsewhere ⟨[], trivial⟩ (moves.recorded_eq idx)
  | ignored event unknown =>
    rw [follow_of_unknown unknown]
    exact .refl _

/-- A manager, a peer in it and the timestamps of the Inits accepted from it. -/
structure Watch (env : Primitives) where
  pm : PeerManager env
  idx : Nat
  accepted : List Nat

namespace Watch

def peer (watch : Watch env) : Option (Peer env) := watch.pm.peers[watch.idx]?

def start (config : Config env) (idx : Nat) : Watch env := ⟨new config, idx, []⟩

def step (watch : Watch env) (event : ShardEvent) : Watch env :=
  let pm := watch.pm.shardStep event
  let idx := watch.pm.follow watch.idx event
  let label := recorded pm.peers[idx]?
  ⟨pm, idx, if label = recorded watch.peer then watch.accepted
    else watch.accepted ++ label.toList⟩

def Stays (watch : Watch env) (event : ShardEvent) : Prop := watch.pm.Stays watch.idx event

/-- The event makes a session or keys of an Init with this timestamp. -/
def Builds (watch : Watch env) (event : ShardEvent) (label : Nat) : Prop :=
  ∃ src dg moment init epochs, event = .own (.udp src dg moment) ∧
    watch.pm.readInit (watch.pm.carried src dg) moment = some init ∧ init.initTs = label ∧
    epochsOf (watch.step event).peer = some epochs ∧ epochsOf watch.peer ≠ some epochs

def Answered (watch : Watch env) (event : ShardEvent) : Prop :=
  ∃ dg, (watch.pm.shardOccasion event).resp dg

variable {watch : Watch env} {event : ShardEvent}

theorem step_traced (stays : watch.Stays event) :
    Traced (watch.pm.shardOccasion event) watch.pm.bootFloorTs watch.peer
      (watch.step event).peer :=
  (watch.pm.shardStep_stepped event).traced stays

theorem step_history (stays : watch.Stays event) :
    ((watch.step event).accepted = watch.accepted ∧
        recorded (watch.step event).peer = recorded watch.peer) ∨
      ∃ init, (watch.pm.shardOccasion event).init init ∧
        (recorded watch.peer).getD watch.pm.bootFloorTs < init.initTs ∧
        recorded (watch.step event).peer = some init.initTs ∧
        (watch.step event).accepted = watch.accepted ++ [init.initTs] := by
  rcases (step_traced stays).label with same | ⟨init, given, fresh, label⟩
  · exact Or.inl ⟨if_pos same, same⟩
  · refine Or.inr ⟨init, given, fresh, label, ?_⟩
    have changed : recorded (watch.step event).peer ≠ recorded watch.peer := by
      intro same
      rw [← same, label] at fresh
      simp at fresh
    refine (if_neg changed).trans ?_
    exact congrArg (fun label : Option Nat => watch.accepted ++ label.toList) label

theorem run_history (events : List ShardEvent) :
    watch.accepted <+: (Machine.run step watch events).accepted := by
  induction events generalizing watch with
  | nil => exact prefix_rfl
  | cons event rest ih =>
    refine List.IsPrefix.trans ?_ ih
    unfold step
    dsimp only
    split
    · exact prefix_rfl
    · exact prefix_append ..

theorem Builds.history {label : Nat} (builds : watch.Builds event label)
    (stays : watch.Stays event) :
    (recorded watch.peer).getD watch.pm.bootFloorTs < label ∧
      (watch.step event).accepted = watch.accepted ++ [label] := by
  obtain ⟨src, dg, moment, init, epochs, rfl, read, rfl, has, lacked⟩ := builds
  rcases step_history stays with ⟨_, same⟩ | ⟨accepted, given, fresh, _, history⟩
  · exact absurd ((step_traced stays).session (initOnly_of_readInit read) same epochs has) lacked
  · cases some.inj (Eq.trans (Eq.symm given) read)
    exact ⟨fresh, history⟩

theorem keys_origin (stays : watch.Stays event) {key : Credentials}
    (held : key ∈ heldKeys (watch.step event).peer) (lacked : key ∉ heldKeys watch.peer) :
    watch.Answered event ∨ ∃ label, watch.Builds event label := by
  rcases (step_traced stays).keys key held with had | answered | ⟨init, given, label, _⟩
  · exact absurd had lacked
  · exact Or.inl answered
  · refine Or.inr ⟨init.initTs, ?_⟩
    have live : ∃ epochs, epochsOf (watch.step event).peer = some epochs := by
      cases state : epochsOf (watch.step event).peer with
      | none => simp [heldKeys, state] at held
      | some epochs => exact ⟨epochs, rfl⟩
    obtain ⟨epochs, has⟩ := live
    have changed : epochsOf watch.peer ≠ some epochs := by
      intro had
      rw [heldKeys, had] at lacked
      rw [heldKeys, has] at held
      exact lacked held
    cases event with
    | install => exact given.elim
    | own event =>
      cases event with
      | udp src dg moment => exact ⟨src, dg, moment, init, epochs, rfl, given, rfl, has, changed⟩
      | tun | tick | addPeer | admitMember | removePeer | drainNewEpochs => exact given.elim

/-- The timestamps accepted increase from the floor, and the last is the recorded one. -/
structure Sound (floor : Nat) (watch : Watch env) : Prop where
  setting : watch.pm.bootFloorTs = floor
  increasing : watch.accepted.Pairwise (· < ·)
  above : ∀ label ∈ watch.accepted, floor < label
  last : watch.accepted.getLast? = recorded watch.peer

theorem Sound.below {floor : Nat} (sound : Sound floor watch) {label : Nat}
    (fresh : (recorded watch.peer).getD watch.pm.bootFloorTs < label) :
    floor < label ∧ ∀ earlier ∈ watch.accepted, earlier < label := by
  rw [← sound.last, sound.setting] at fresh
  rcases eq_nil_or_concat watch.accepted with empty | ⟨early, last, history⟩
  · rw [empty] at fresh ⊢
    exact ⟨fresh, nofun⟩
  · rw [concat_eq_append] at history
    have increasing := sound.increasing
    have above := sound.above
    simp only [history, getLast?_append, getLast?_singleton, some_or,
      getD_some] at fresh
    rw [history] at increasing above ⊢
    refine ⟨(above last (by simp)).trans fresh,
      forall_mem_append.mpr ⟨fun earlier member => ?_, forall_mem_singleton.mpr fresh⟩⟩
    exact ((pairwise_append.mp increasing).2.2 earlier member last (by simp)).trans fresh

theorem Sound.step {floor : Nat} (sound : Sound floor watch) (stays : watch.Stays event) :
    Sound floor (watch.step event) := by
  have setting : (watch.step event).pm.bootFloorTs = floor :=
    (congrArg Config.bootFloorTs (watch.pm.shardStep_stepped event).setting_eq).trans
      sound.setting
  rcases step_history stays with ⟨history, same⟩ | ⟨init, _, fresh, label, history⟩
  · refine ⟨setting, ?_, ?_, ?_⟩
    · rw [history]
      exact sound.increasing
    · rw [history]
      exact sound.above
    · rw [history, same]
      exact sound.last
  · obtain ⟨aboveFloor, aboveAll⟩ := sound.below fresh
    refine ⟨setting, ?_, ?_, ?_⟩
    · rw [history]
      exact pairwise_append.mpr ⟨sound.increasing, pairwise_singleton ..,
        fun earlier member => forall_mem_singleton.mpr (aboveAll earlier member)⟩
    · rw [history]
      exact forall_mem_append.mpr ⟨sound.above, forall_mem_singleton.mpr aboveFloor⟩
    · rw [history, label]
      simp

theorem new_recorded (config : Config env) (idx : Nat) :
    recorded (new config).peers[idx]? = none := by
  refine new_induction (fun pm => recorded pm.peers[idx]? = none) config rfl
    fun pm pubkey endpoint isStatic endpoints nowMs holds => ?_
  have traced : Traced .none 0 pm.peers[idx]? (pm.pushPeer
      (Peer.new pubkey endpoint isStatic (pm.startPath endpoints nowMs))).peers[idx]? :=
    pushPeer_traced idx rfl rfl
  rcases traced.label with same | ⟨_, given, _⟩
  · exact same.trans holds
  · exact given.elim

theorem start_sound (config : Config env) (idx : Nat) :
    Sound config.bootFloorTs (start config idx) := by
  have floor : (new config).bootFloorTs = config.bootFloorTs :=
    new_induction (fun pm => pm.bootFloorTs = config.bootFloorTs) config rfl fun _ _ _ _ _ _ => id
  exact ⟨floor, List.Pairwise.nil, nofun, (new_recorded config idx).symm⟩

end Watch

/-- In every run that does not remove the peer at a watched position its recorded label strictly
increases at each change, from above the boot floor. Every Init that builds a session or a next
epoch for it has a label above the boot floor and above all labels recorded before, and records it,
keys the peer did not hold come from such an Init unless they come with a response or from another
shard, and no label builds twice. -/
theorem init_labels_fresh (config : Config env) (idx : Nat) (events : List ShardEvent)
    (stays : Machine.Admissible Watch.step Watch.Stays (Watch.start config idx) events) :
    let watch := Machine.run Watch.step (Watch.start config idx)
    ((watch events).accepted.Pairwise (· < ·) ∧
        (∀ label ∈ (watch events).accepted, config.bootFloorTs < label) ∧
        (watch events).accepted.getLast? = recorded (watch events).peer) ∧
      (∀ before event rest, events = before ++ event :: rest →
        (∀ label, (watch before).Builds event label →
          config.bootFloorTs < label ∧ (∀ earlier ∈ (watch before).accepted, earlier < label) ∧
            (watch (before ++ [event])).accepted = (watch before).accepted ++ [label]) ∧
        ∀ key ∈ heldKeys (watch (before ++ [event])).peer, key ∉ heldKeys (watch before).peer →
          (watch before).Answered event ∨ ∃ label, (watch before).Builds event label) ∧
      ∀ first early between late rest, events = first ++ early :: (between ++ late :: rest) →
        ∀ label again, (watch first).Builds early label →
          (watch (first ++ early :: between)).Builds late again → label < again := by
  intro watch
  have sound (before : List ShardEvent)
      (admissible : Machine.Admissible Watch.step Watch.Stays (Watch.start config idx) before) :
      Watch.Sound config.bootFloorTs (watch before) :=
    Machine.run_invariant Watch.step Watch.Stays (Watch.Sound config.bootFloorTs)
      (fun _ _ sound stays => sound.step stays) _ before (Watch.start_sound config idx) admissible
  have upTo (before : List ShardEvent) (event : ShardEvent) (rest : List ShardEvent)
      (split : events = before ++ event :: rest) :
      Watch.Sound config.bootFloorTs (watch before) ∧ (watch before).Stays event := by
    rw [split, Machine.admissible_append] at stays
    exact ⟨sound before stays.1, stays.2.1⟩
  have next (before : List ShardEvent) (event : ShardEvent) :
      watch (before ++ [event]) = (watch before).step event :=
    Machine.run_append Watch.step _ before [event]
  refine ⟨?_, fun before event rest split => ⟨fun label builds => ?_,
    fun key held lacked => ?_⟩, ?_⟩
  · have whole := sound events stays
    exact ⟨whole.increasing, whole.above, whole.last⟩
  · obtain ⟨fine, remains⟩ := upTo before event rest split
    obtain ⟨fresh, history⟩ := builds.history remains
    obtain ⟨aboveFloor, aboveAll⟩ := fine.below fresh
    exact ⟨aboveFloor, aboveAll, next before event ▸ history⟩
  · rw [next] at held
    exact Watch.keys_origin (upTo before event rest split).2 held lacked
  · intro first early between late rest split label again builds rebuilds
    obtain ⟨_, remains⟩ := upTo first early (between ++ late :: rest) split
    have recordedThen : label ∈ ((watch first).step early).accepted := by
      rw [(builds.history remains).2]
      exact mem_append_right _ (mem_singleton_self label)
    have recordedNow : label ∈ (watch (first ++ early :: between)).accepted := by
      have later : watch (first ++ early :: between) =
          Machine.run Watch.step ((watch first).step early) between :=
        Machine.run_append Watch.step _ first (early :: between)
      rw [later]
      exact (Watch.run_history between).subset recordedThen
    obtain ⟨fine, remains⟩ := upTo (first ++ early :: between) late rest (by simp [split])
    exact (fine.below (rebuilds.history remains).1).2 label recordedNow

section Runs

open Transparent

def repeatedInits : List ShardEvent :=
  [.own (.udp ⟨1, 1⟩ (init 1 7 10 []) (moment 0 0 0 8)),
    .own (.udp ⟨1, 1⟩ (init 1 9 20 []) (moment 1 0 0 10)),
    .own (.udp ⟨66, 66⟩ (init 1 7 10 []) (moment 2 0 0 11))]

/-- The labels of the two Inits are recorded one after the other, and the replay is not. -/
theorem repeatedInits_fresh :
    let watch := Machine.run Watch.step (Watch.start (config 2 [1] none 0 1) 0) repeatedInits
    watch.accepted = [10, 20] ∧ watch.accepted.Pairwise (· < ·) ∧
      watch.accepted.getLast? = recorded watch.peer := by
  have stays : Machine.Admissible Watch.step Watch.Stays (Watch.start (config 2 [1] none 0 1) 0)
      repeatedInits := ⟨trivial, trivial, trivial, trivial⟩
  have fresh := init_labels_fresh (config 2 [1] none 0 1) 0 repeatedInits stays
  exact ⟨by decide +kernel, fresh.1.1, fresh.1.2.2⟩

end Runs

end PeerManager

end Yip
