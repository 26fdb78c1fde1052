/-
This file says how the epochs of one peer turn.
-/

import Yip.Lib.KeyExchange
import Yip.PeerManager.Freshness

namespace Yip

open Crypto Transport Wire Option

abbrev Position (env : Primitives) := KeyExchange.Position Credentials env.noise.HandshakeState

/-- The datagram is authentic under these keys. -/
def Credentials.Authentic (env : Primitives) (keys : Credentials) (datagram : List Byte) : Prop :=
  match datagram with
  | [] => False
  | kind :: body =>
    if kind = PacketType.data.toByte then (keys.codec.deframe env.sip body).isOk = true
    else kind = PacketType.control.toByte ∧
      (env.aead.openBytes keys.recvKey (ofBeBytes (body.take 8)) (body.drop 8)).isSome = true

instance (env : Primitives) (keys : Credentials) :
    (datagram : List Byte) → Decidable (keys.Authentic env datagram)
  | [] => inferInstanceAs (Decidable False)
  | _ :: _ => inferInstanceAs (Decidable (ite _ _ _))

theorem DataPlane.authentic_of_outcome {env : Primitives} {dp : DataPlane env}
    {datagram : List Byte} {nowMs : Nat} (outcome : (dp.onUdpDatagram datagram nowMs).2 ≠ .none) :
    dp.credentials.Authentic env datagram := by
  rcases datagram with _ | ⟨kind, body⟩
  · exact absurd rfl outcome
  unfold Credentials.Authentic
  dsimp only
  rcases (dp.onUdpDatagram_snd _ nowMs).mp outcome with complete | ⟨plaintext, opened, _⟩
  · unfold dataPlaintext at complete
    dsimp only at complete
    split at complete
    · rename_i isData
      rw [if_pos isData]
      split at complete
      · exact absurd rfl complete
      · rename_i frame deframed
        have same : dp.credentials.codec = dp.codec := rfl
        rw [same, deframed]
        rfl
    · exact absurd rfl complete
  · unfold controlPlaintext at opened
    dsimp only at opened
    split at opened
    · rename_i readable
      have notData : kind ≠ PacketType.data.toByte := by
        rw [readable.1]
        exact data_ne_control.symm
      rw [if_neg notData]
      refine ⟨readable.1, ?_⟩
      have same : dp.credentials.recvKey = dp.session.recvKey := rfl
      rw [same, opened]
      rfl
    · cases opened

namespace EpochSet

variable {env : Primitives}

def position (set : EpochSet env) : Position env where
  current := set.current.credentials
  next := set.next.map (·.dp.credentials)
  round := set.rekey.map (·.hs)

theorem position_congr {set other : EpochSet env}
    (current : other.current.credentials = set.current.credentials)
    (next : other.next.map (·.dp.credentials) = set.next.map (·.dp.credentials))
    (rekey : other.rekey.map (·.hs) = set.rekey.map (·.hs)) : other.position = set.position := by
  unfold position
  rw [current, next, rekey]

theorem setPeerAddr_position (set : EpochSet env) (addr : SocketAddr) :
    (set.setPeerAddr addr).position = set.position := by
  have moved (dp : DataPlane env) : (dp.setPeerAddr addr).credentials = dp.credentials :=
    (dp.setPeerAddr_acts addr).credentials
  unfold setPeerAddr
  refine position_congr (moved _) ?_ ?_
  · cases set.next with
    | none => rfl
    | some next => exact congrArg some (moved next.dp)
  · cases set.rekey <;> rfl

theorem inboundOpen_position (set : EpochSet env) (datagram : List Byte) (nowMs : Nat) :
    (set.inboundOpen datagram nowMs).1.position = set.position ∨
      ∃ keys, set.position.next = some keys ∧ keys.Authentic env datagram ∧
        (set.inboundOpen datagram nowMs).1.position =
          { set.position with current := keys, next := none } := by
  have kept (dp : DataPlane env) := (dp.onUdpDatagram_acts datagram nowMs).credentials
  obtain ⟨rekey, ⟨current, next⟩ | ⟨next, isNext, promotes⟩⟩ := set.inboundOpen_cases datagram nowMs
  · refine Or.inl (position_congr (current ▸ kept _) ?_ (by rw [rekey]))
    rcases next with same | moved
    · rw [same]
    · simp [moved, kept, Function.comp_def]
  · obtain ⟨_, outcome⟩ := (promotes_iff_outcomes set next isNext datagram nowMs).mp promotes
    refine Or.inr ⟨next.dp.credentials, by rw [position, isNext]; rfl,
      DataPlane.authentic_of_outcome outcome, ?_⟩
    simp only [position, promotes.1, promotes.2.1, kept, rekey, map_none]

end EpochSet

namespace PeerManager

variable {env : Primitives} {occasion : Warrant} {pm after : PeerManager env}

/-! ### One move -/

/-- How the keys of a session may change, other than by the answer to a rekey. -/
inductive Turn (env : Primitives) (occasion : Occasion) (before : Position env) :
    Position env → Prop where
  | keeps : Turn env occasion before before
  | clocks (given : occasion.clock) (round : Option env.noise.HandshakeState) :
    Turn env occasion before { before with round := round }
  | installs (init : InitRead) (given : occasion.init init) :
    Turn env occasion before { before with next := some init.established.credentials }
  | confirms (dg : List Byte) (keys : Credentials) (given : occasion.data dg)
      (held : before.next = some keys) (authentic : keys.Authentic env dg) :
    Turn env occasion before { before with current := keys, next := none }
  | concludes (dg : List Byte) (given : occasion.resp dg) :
    Turn env occasion before { before with round := none }

variable {before : Position env} {idx : Nat}

theorem Turn.of_eq {later : Position env} (same : later = before) :
    Turn env occasion before later := same ▸ .keeps

theorem relearnEndpoint_turn {peer : Peer env} {epochs : EpochSet env}
    (live : peer.state = .established epochs) (src : SocketAddr) :
    ∃ later, (peer.relearnEndpoint src).state = .established later ∧
      later.position = epochs.position := by
  rcases peer.relearnEndpoint_cases src with same | ⟨addr, moved⟩
  · rw [same]
    exact ⟨epochs, live, rfl⟩
  · rw [moved]
    exact ⟨_, Peer.moveTo_of_live live addr, epochs.setPeerAddr_position _⟩

theorem Touch.turn {peer touched : Peer env} {epochs : EpochSet env}
    (touch : Touch occasion pm peer touched) (live : peer.state = .established epochs) :
    ∃ later, touched.state = .established later ∧
      Turn env occasion epochs.position later.position := by
  have established : peer.state.isEstablished = true := by
    rw [live]
    rfl
  cases touch with
  | begins _ idle =>
    rw [idle] at live
    cases live
  | reverts _ _ _ waiting | escalates _ _ waiting | retargets _ _ waiting | resends _ _ _ waiting
  | expires _ _ waiting =>
    rw [waiting] at live
    cases live
  | advances _ waiting | learns _ _ waiting | buffers _ _ waiting | flags waiting =>
    rw [waiting] at established
    cases established
  | asks | detours | renews => exact ⟨epochs, live, .keeps⟩
  | installs init initEph peerAddr known given had =>
    obtain rfl := PeerState.established.inj (had.symm.trans live)
    exact ⟨_, rfl, .installs init given⟩
  | concludes dg known given had =>
    obtain rfl := PeerState.established.inj (had.symm.trans live)
    exact ⟨_, rfl, .concludes dg given⟩
  | opens dg nowMs known given had =>
    obtain rfl := PeerState.established.inj (had.symm.trans live)
    refine ⟨_, rfl, ?_⟩
    rcases known.inboundOpen_position dg nowMs with same | ⟨keys, held, authentic, turned⟩
    · exact .of_eq same
    · rw [turned]
      exact .confirms dg keys given held authentic
  | roams dg src =>
    obtain ⟨later, state, same⟩ := relearnEndpoint_turn live src
    exact ⟨later, state, .of_eq same⟩
  | seals inner nowMs known given had =>
    obtain rfl := PeerState.established.inj (had.symm.trans live)
    refine ⟨_, rfl, .of_eq (EpochSet.position_congr ?_ rfl rfl)⟩
    exact (known.current.onTunPacket_acts inner nowMs).credentials
  | clocks position moment jittered known scheduled given had schedule =>
    obtain rfl := PeerState.established.inj (had.symm.trans live)
    have current : scheduled.current = known.current := by
      rw [schedule, driveRekeySchedule_current, retirePreviousIfDue_current]
    have next : scheduled.next = known.next := by
      rw [schedule, driveRekeySchedule_next, retirePreviousIfDue_next]
    have ticked := (scheduled.current.tick_acts moment.nowMs jittered).credentials
    rw [current] at ticked
    refine ⟨_, rfl, ?_⟩
    have turned : ({ scheduled with
        current := (scheduled.current.tick moment.nowMs jittered).1 } : EpochSet env).position =
        { known.position with round := scheduled.rekey.map (·.hs) } := by
      simp only [EpochSet.position, ticked, current, next]
    rw [turned]
    exact .clocks given _

/-! ### One event -/

inductive Occasion.Kind where
  | init
  | resp
  | data
  | clock

structure Occasion.Of (occasion : Occasion) (kind : Occasion.Kind) : Prop where
  init : ∀ init, occasion.init init → kind = .init
  resp : ∀ dg, occasion.resp dg → kind = .resp
  data : ∀ dg, occasion.data dg → kind = .data
  clock : occasion.clock → kind = .clock

variable {kind : Occasion.Kind}

theorem Turn.trans (only : occasion.Of kind) {between later : Position env}
    (first : Turn env occasion before between) (second : Turn env occasion between later) :
    Turn env occasion before later := by
  cases second with
  | keeps => exact first
  | clocks clock round =>
    rw [only.clock clock] at only
    cases first with
    | keeps | clocks => exact .clocks clock round
    | installs init given => cases only.init init given
    | confirms dg keys given => cases only.data dg given
    | concludes dg given => cases only.resp dg given
  | installs init given =>
    rw [only.init init given] at only
    cases first with
    | keeps | installs => exact .installs init given
    | clocks clock => cases only.clock clock
    | confirms dg keys data => cases only.data dg data
    | concludes dg resp => cases only.resp dg resp
  | confirms dg keys given held authentic =>
    rw [only.data dg given] at only
    cases first with
    | keeps => exact .confirms dg keys given held authentic
    | confirms => cases held
    | clocks clock => cases only.clock clock
    | installs init brought => cases only.init init brought
    | concludes dg resp => cases only.resp dg resp
  | concludes dg given =>
    rw [only.resp dg given] at only
    cases first with
    | keeps | concludes => exact .concludes dg given
    | clocks clock => cases only.clock clock
    | installs init brought => cases only.init init brought
    | confirms dg keys data => cases only.data dg data

def StandsAt (pm : PeerManager env) (idx : Nat) (position : Position env) : Prop :=
  ∃ peer epochs, pm.peers[idx]? = some peer ∧ peer.state = .established epochs ∧
    epochs.position = position

def standing (pm : PeerManager env) (idx : Nat) : Option (Position env) :=
  (epochsOf pm.peers[idx]?).map EpochSet.position

theorem standing_eq_some_iff {position : Position env} :
    pm.standing idx = some position ↔ pm.StandsAt idx position := by
  unfold standing
  constructor
  · intro stands
    obtain ⟨epochs, has, same⟩ := map_eq_some_iff.mp stands
    obtain ⟨peer, holds, live⟩ := bind_eq_some_iff.mp has
    refine ⟨peer, epochs, holds, ?_, same⟩
    split at live
    · rename_i known state
      rw [state, some.inj live]
    · cases live
    · cases live
  · rintro ⟨peer, epochs, holds, live, same⟩
    rw [holds, epochsOf_of_established live, map_some, same]

theorem Quiet.stands (quiet : Quiet occasion pm after) (kept : ¬occasion.drop idx) :
    pm.StandsAt idx before →
      ∃ later, after.StandsAt idx later ∧ Turn env occasion before later := by
  unfold StandsAt
  refine quiet.seat idx (fun _ stands => ⟨before, stands, .keeps⟩) ?_ ?_
    fun given => absurd given kept
  · rintro _ touched touch ⟨_, epochs, ⟨⟩, live, rfl⟩
    obtain ⟨later, state, turn⟩ := touch.turn live
    exact ⟨_, ⟨touched, later, rfl, state, rfl⟩, turn⟩
  · rintro _ _ _ ⟨_, _, ⟨⟩, _⟩

theorem Moves.stands (moves : Moves occasion pm after) (only : occasion.Of kind)
    (kept : ¬occasion.drop idx) (stands : pm.StandsAt idx before) :
    ∃ later, after.StandsAt idx later ∧ Turn env occasion before later := by
  induction moves with
  | refl => exact ⟨before, stands, .keeps⟩
  | tail _ quiet ih =>
    obtain ⟨between, standsThere, first⟩ := ih
    obtain ⟨later, standsLater, second⟩ := quiet.stands kept standsThere
    exact ⟨later, standsLater, first.trans only second⟩

theorem Starts.stands (starts : Starts occasion pm after) : pm.StandsAt idx before →
    after.StandsAt idx before ∨ ∃ hs dg established payload, before.round = some hs ∧
      occasion.resp dg ∧ HandshakeState.readResponse env hs dg = some (established, payload) ∧
      after.StandsAt idx { before with current := established.credentials, round := none } := by
  unfold StandsAt
  refine starts.seat idx (fun _ => Or.inl) ?_
  rintro peer begun begins ⟨_, epochs, ⟨⟩, live, rfl⟩
  cases begins with
  | responds _ _ _ _ waiting =>
    rw [live] at waiting
    cases waiting
  | completes _ _ _ _ _ _ _ waiting =>
    rw [live] at waiting
    cases waiting
  | rekeys known rekey dg established payload viaRelay moment had inFlight given read admits =>
    obtain rfl := PeerState.established.inj (had.symm.trans live)
    refine Or.inr ⟨rekey.hs, dg, established, payload, ?_, given, read, _, _, rfl, rfl, ?_⟩
    · rw [EpochSet.position, inFlight]
      rfl
    · have keys := (pm.strided_credentials _).trans (drainPending_credentials
        (pm.dataPlane established (pm.sessionAddr viaRelay rekey.target)) moment.nowMs
        (if peer.pendingTun.isEmpty then [[]] else peer.pendingTun))
      simp only [EpochSet.position, rekeyEpochs, EpochSet.promoteFromRekey, EpochSet.supersede,
        keys, dataPlane_credentials, map_none]

/-- A turn, or the switch to the keys of an answered rekey. -/
inductive Turned (env : Primitives) (occasion : Occasion) (before : Position env) :
    Position env → Prop where
  | turns (later : Position env) (turn : Turn env occasion before later) :
    Turned env occasion before later
  | switches (hs : env.noise.HandshakeState) (dg : List Byte) (established : Established)
      (payload : List Byte) (inFlight : before.round = some hs) (given : occasion.resp dg)
      (read : HandshakeState.readResponse env hs dg = some (established, payload)) :
    Turned env occasion before { before with current := established.credentials, round := none }

theorem Course.stands (course : Course occasion pm after) (only : occasion.Of kind)
    (kept : ¬occasion.drop idx) (stands : pm.StandsAt idx before) :
    ∃ later, after.StandsAt idx later ∧ Turned env occasion before later := by
  obtain ⟨quiet, moves, ends⟩ := course
  obtain ⟨between, standsThere, turn⟩ := moves.stands only kept stands
  rcases ends with rfl | starts
  · exact ⟨between, standsThere, .turns between turn⟩
  · rcases starts.stands standsThere with same | ⟨hs, dg, established, payload, inFlight, given,
      read, standsAfter⟩
    · exact ⟨between, same, .turns between turn⟩
    · -- a response that the rekey in flight can read does nothing else to the position
      rw [only.resp dg given] at only
      cases turn with
      | keeps => exact ⟨_, standsAfter, .switches hs dg established payload inFlight given read⟩
      | concludes => cases inFlight
      | clocks clock => cases only.clock clock
      | installs init brought => cases only.init init brought
      | confirms data keys carried => cases only.data data carried

def eventKind (pm : PeerManager env) : Event → Occasion.Kind
  | .udp src dg _ =>
    if (pm.carried src dg).head? = some PacketType.handshakeInit.toByte then .init
    else if (pm.carried src dg).head? = some PacketType.handshakeResp.toByte then .resp
    else .data
  | _ => .clock

theorem eventOccasion_of (pm : PeerManager env) (event : Event) :
    (pm.eventOccasion event).Of (pm.eventKind event) := by
  cases event with
  | udp src dg moment =>
    refine ⟨?_, ?_, ?_, False.elim⟩
    · intro init read
      obtain ⟨message, carries⟩ := readInit_kind read
      rw [eventKind, carries, List.head?_cons, if_pos rfl]
    · intro response given
      have notInit : PacketType.handshakeResp.toByte ≠ PacketType.handshakeInit.toByte := by decide
      rw [eventKind, given.2, if_neg (notInit ∘ some.inj), if_pos rfl]
    · intro data given
      rw [eventKind, if_neg given.2.1, if_neg given.2.2]
  | tun | tick | addPeer | admitMember | removePeer | drainNewEpochs =>
    exact ⟨fun _ => False.elim, fun _ => False.elim, fun _ => False.elim, fun _ => rfl⟩

theorem Stepped.stands {event : ShardEvent} {own : Event} (stepped : pm.Stepped event after)
    (isOwn : event = .own own) (stays : pm.Stays idx event)
    (kept : ¬(pm.eventOccasion own).drop idx) (stands : pm.StandsAt idx before) :
    ∃ later, after.StandsAt (pm.follow idx event) later ∧
      Turned env (pm.eventOccasion own) before later := by
  have still : Turned env (pm.eventOccasion own) before before :=
    .turns before .keeps
  cases stepped with
  | course event after remains course =>
    cases isOwn
    rw [follow_of_ne remains]
    exact course.stands (pm.eventOccasion_of own) kept stands
  | added pubkey endpoint =>
    obtain ⟨peer, epochs, holds, live, same⟩ := stands
    obtain ⟨bound, _⟩ := List.getElem?_eq_some_iff.mp holds
    exact ⟨before, ⟨peer, epochs, (List.getElem?_append_left bound).trans holds, live, same⟩, still⟩
  | removed pubkey removed after found setting peers =>
    obtain ⟨peer, epochs, holds, live, same⟩ := stands
    have apart : idx ≠ removed := fun same => stays (same ▸ found)
    have moved := (getElem?_follow_of_removed found peers apart).trans holds
    exact ⟨before, ⟨peer, epochs, moved, live, same⟩, still⟩
  | drained => exact ⟨before, stands, still⟩
  | installed | unknown => cases isOwn
  | ignored event unknown =>
    rw [follow_of_unknown unknown]
    exact ⟨before, stands, still⟩

end PeerManager

end Yip
