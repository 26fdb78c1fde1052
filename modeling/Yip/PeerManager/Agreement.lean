/-
This file sets two managers against each other that share a session.
-/

import Yip.Conversation
import Yip.PeerManager.Turns

namespace Yip

open Crypto Transport Wire Option

/-- The same keys as the other side holds them. -/
def Credentials.mirror (keys : Credentials) : Credentials :=
  { keys with
    sendKey := keys.recvKey
    recvKey := keys.sendKey
    rawSendKey := keys.rawRecvKey
    rawRecvKey := keys.rawSendKey }

theorem Credentials.mirror_involutive : Function.Involutive Credentials.mirror := fun _ => rfl

/-- Some response completes this handshake with the keys the other side gave out. -/
def Credentials.Answers (env : Primitives) (keys : Credentials) (hs : env.noise.HandshakeState) :
    Prop :=
  ∃ dg, ∃ response ∈ HandshakeState.readResponse env hs dg, response.1.credentials = keys.mirror

/-- The datagrams an event makes the manager send. -/
def PeerManager.emitted {env : Primitives} (pm : PeerManager env) : Event → List (List Byte)
  | .udp src dg moment =>
    ((pm.onUdpDispatch src dg moment).elim [] fun result => result.2.udp).map (·.bytes)
  | .tun inner moment => (pm.onTunDispatch inner moment).2.map (·.bytes)
  | .tick moment => (pm.tickDispatch moment).2.map (·.bytes)
  | .addPeer .. | .admitMember .. | .removePeer _ | .drainNewEpochs => []

/-! ### The system -/

/-- Two managers, each with the other as a peer, the datagrams between them and the keys each has
used and given out. -/
structure Pair (env : Primitives) where
  manager : Side → PeerManager env
  idx : Side → Nat
  transit : Side → List (List Byte)
  used : Side → List Credentials
  brought : Side → List Credentials

namespace Pair

variable {env : Primitives}

/-- One side acts, or a datagram on its way is copied or lost. -/
inductive Event where
  | act (side : Side) (event : PeerManager.Event)
  | copy (side : Side) (index : Nat)
  | lose (side : Side) (index : Nat)

def remaining (transit : List (List Byte)) : PeerManager.Event → List (List Byte)
  | .udp _ dg _ => transit.erase dg
  | _ => transit

variable (side : Side)

def act (pair : Pair env) (side : Side) (event : PeerManager.Event) : Pair env :=
  let pm := pair.manager side
  let idx := pm.follow (pair.idx side) (.own event)
  let standing := (pm.step event).standing idx
  { manager := Function.update pair.manager side (pm.step event)
    idx := Function.update pair.idx side idx
    transit := Function.update (Function.update pair.transit side
      (remaining (pair.transit side) event)) side.other
      (pair.transit side.other ++ pm.emitted event)
    used := Function.update pair.used side
      ((standing.map (·.current)).toList ++ pair.used side)
    brought := Function.update pair.brought side
      ((standing.bind (·.next)).toList ++ pair.brought side) }

def step (pair : Pair env) : Event → Pair env
  | .act side event => pair.act side event
  | .copy side index =>
    { pair with
      transit := Function.update pair.transit side
        ((pair.transit side)[index]?.toList ++ pair.transit side) }
  | .lose side index =>
    { pair with
      transit := Function.update pair.transit side ((pair.transit side).eraseIdx index) }

def standing (pair : Pair env) (side : Side) : Option (Position env) :=
  (pair.manager side).standing (pair.idx side)

def current (pair : Pair env) (side : Side) : Option Credentials :=
  (pair.standing side).map (·.current)

def next (pair : Pair env) (side : Side) : Option Credentials := (pair.standing side).bind (·.next)

def rekey (pair : Pair env) (side : Side) : Option env.noise.HandshakeState :=
  (pair.standing side).bind (·.round)

/-- Both sides use the same keys, and nothing is under way. -/
structure Joined (pair : Pair env) (keys : Side → Credentials) : Prop where
  current : ∀ side, pair.current side = some (keys side)
  same : ∀ side, (keys side).mirror = keys side.other
  used : ∀ side, keys side ∈ pair.used side ∧ ∀ old ∈ pair.used side, old = keys side
  next : ∀ side, pair.next side = none
  rekey : ∀ side, pair.rekey side = none
  brought : ∀ side, pair.brought side = []

/-! ### What the network and the handshake are trusted for -/

/-- If a datagram is authentic under the keys to come, the other side has them. -/
def Unforged (pair : Pair env) (side : Side) (payload : List Byte) : Prop :=
  ∀ keys ∈ pair.next side, keys.Authentic env payload →
    keys.mirror ∈ pair.used side.other ∨ keys.mirror ∈ pair.brought side.other

/-- A response to the rekey under way comes from keys the other side gave out. -/
def Matching (pair : Pair env) (side : Side) (payload : List Byte) : Prop :=
  ∀ hs ∈ pair.rekey side, ∀ response ∈ HandshakeState.readResponse env hs payload,
    response.1.credentials.mirror ∈ pair.brought side.other

/-- An Init makes keys that were never used or given out before. -/
def NewKeys (pair : Pair env) (side : Side) (payload : List Byte) (moment : Moment) : Prop :=
  ∀ init ∈ (pair.manager side).readInit payload moment,
    init.established.credentials.mirror ∉ pair.used side.other ∧
      init.established.credentials.mirror ∉ pair.brought side.other

/-- A new rekey is not answered by keys given out before. -/
def NewRekey (pair : Pair env) (side : Side) (moment : Moment) : Prop :=
  ∀ hs ∈ (pair.act side (.tick moment)).rekey side, hs ∉ pair.rekey side →
    ∀ keys ∈ pair.brought side.other, ¬keys.Answers env hs

/-- The event neither removes the peer nor drops its session. -/
def Lasting (pair : Pair env) (side : Side) (event : PeerManager.Event) : Prop :=
  (pair.manager side).Stays (pair.idx side) (.own event) ∧
    ¬((pair.manager side).eventOccasion event).drop (pair.idx side)

/-- What an event needs for the keys to stay in agreement. -/
def Genuine (pair : Pair env) : Event → Prop
  | .act side event => pair.Lasting side event ∧
    match event with
    | .udp src dg moment =>
      let payload := (pair.manager side).carried src dg
      pair.Unforged side payload ∧ pair.Matching side payload ∧ pair.NewKeys side payload moment
    | .tick moment => pair.NewRekey side moment
    | _ => True
  | .copy .. | .lose .. => True

/-- A response arrives while keys are given out only if the other side neither rekeys nor has
switched to them. -/
def Uncrossed (pair : Pair env) : Event → Prop
  | .act side (.udp src dg _) =>
    ∀ hs ∈ pair.rekey side,
      (HandshakeState.readResponse env hs ((pair.manager side).carried src dg)).isSome = true →
      ∀ keys ∈ pair.next side,
        pair.rekey side.other = none ∧ pair.current side.other ≠ some keys.mirror
  | _ => True

/-! ### The exchange of keys -/

def party (pair : Pair env) (position : Side → Position env) (side : Side) :
    KeyExchange.Party Credentials env.noise.HandshakeState where
  toPosition := position side
  used := {keys | keys ∈ pair.used side}
  brought := {keys | keys ∈ pair.brought side}

/-- Each side's keys stand to the other's as the abstract exchange requires. -/
structure Concordant (pair : Pair env) (position : Side → Position env) : Prop where
  stands : ∀ side, pair.standing side = some (position side)
  sound : ∀ side, KeyExchange.Sound Credentials.mirror (Credentials.Answers env)
    (pair.party position side) (pair.party position side.other)

variable {pair : Pair env} {position : Side → Position env}

section Views

variable (concordant : pair.Concordant position) (side : Side)
include concordant

theorem Concordant.current : pair.current side = some (position side).current := by
  rw [Pair.current, concordant.stands, map_some]

theorem Concordant.next : pair.next side = (position side).next := by
  rw [Pair.next, concordant.stands, bind_some]

theorem Concordant.rekey : pair.rekey side = (position side).round := by
  rw [Pair.rekey, concordant.stands, bind_some]

end Views

theorem Joined.concordant {keys : Side → Credentials} (joined : pair.Joined keys) :
    ∃ position, pair.Concordant position := by
  have standing (side : Side) : pair.standing side = some ⟨keys side, none, none⟩ := by
    have current := joined.current side
    have next := joined.next side
    have rekey := joined.rekey side
    unfold Pair.current at current
    unfold Pair.next at next
    unfold Pair.rekey at rekey
    obtain ⟨position, stands, same⟩ := map_eq_some_iff.mp current
    rw [stands] at next rekey ⊢
    exact congrArg some (KeyExchange.Position.ext same next rekey)
  refine ⟨fun side => ⟨keys side, none, none⟩, standing, fun side => ?_⟩
  have steady (side : Side) : KeyExchange.Steady Credentials.mirror (Credentials.Answers env)
      (pair.party (fun side => ⟨keys side, none, none⟩) side)
      (pair.party (fun side => ⟨keys side, none, none⟩) side.other) := by
    refine ⟨(joined.used side).1, nofun, ?_, nofun, nofun, nofun⟩
    intro session brought
    have member : session ∈ pair.brought side := brought
    rw [joined.brought] at member
    cases member
  refine ⟨steady side, ?_, Or.inl (joined.same side)⟩
  have back := steady side.other
  rw [Side.other_other] at back
  exact back

variable {event : PeerManager.Event}

theorem Concordant.move (concordant : pair.Concordant position) {side : Side}
    (genuine : pair.Genuine (.act side event)) (uncrossed : pair.Uncrossed (.act side event))
    {later : Position env} (stands : (pair.act side event).standing side = some later)
    (turned : PeerManager.Turned env ((pair.manager side).eventOccasion event) (position side)
      later) :
    KeyExchange.Move Credentials.mirror (Credentials.Answers env) (pair.party position side)
      (pair.party position side.other) later := by
  have next := concordant.next side
  have rekey := concordant.rekey side
  cases turned with
  | turns later turn =>
    cases turn with
    | keeps => exact .rests
    | concludes dg given => exact .schedules none nofun
    | clocks given round =>
      refine .schedules round fun begun isBegun before => ?_
      cases event with
      | tick moment =>
        refine genuine.2 begun ?_ (rekey ▸ before)
        rw [Pair.rekey, stands]
        exact isBegun
      | udp | tun | addPeer | admitMember | removePeer | drainNewEpochs => exact given.elim
    | installs init given =>
      cases event with
      | udp src dg moment =>
        obtain ⟨unused, apart⟩ := genuine.2.2.2 init given
        exact .takes init.established.credentials unused apart
      | tun | tick | addPeer | admitMember | removePeer | drainNewEpochs => exact given.elim
    | confirms dg keys given held authentic =>
      cases event with
      | udp src arrived moment =>
        rw [given.1] at authentic
        exact .follows keys held (genuine.2.1 keys (next.trans held) authentic)
      | tun | tick | addPeer | admitMember | removePeer | drainNewEpochs => exact given.elim
  | switches hs dg established payload inFlight given read =>
    cases event with
    | udp src arrived moment =>
      rw [given.1] at read
      have begun : hs ∈ pair.rekey side := rekey.trans inFlight
      refine .switches hs established.credentials inFlight ⟨_, _, read, rfl⟩
        (genuine.2.2.1 hs begun _ read) fun held isHeld => ?_
      obtain ⟨idle, elsewhere⟩ := uncrossed hs begun (by rw [read]; rfl) held (next.trans isHeld)
      rw [concordant.rekey] at idle
      rw [concordant.current] at elsewhere
      exact ⟨idle, elsewhere ∘ congrArg some⟩
    | tun | tick | addPeer | admitMember | removePeer | drainNewEpochs => exact given.elim

theorem act_standing_self (event : PeerManager.Event) :
    (pair.act side event).standing side = ((pair.manager side).step event).standing
      ((pair.manager side).follow (pair.idx side) (.own event)) := by
  simp only [standing, act, Function.update_self]

theorem act_standing_other (event : PeerManager.Event) :
    (pair.act side event).standing side.other = pair.standing side.other := by
  simp only [standing, act, Function.update_of_ne side.other_ne]

theorem act_party_self {side : Side} {later : Position env}
    (stands : (pair.act side event).standing side = some later) :
    (pair.act side event).party (Function.update position side later) side =
      (pair.party position side).become later := by
  rw [act_standing_self] at stands
  have used : {keys | keys ∈ (pair.act side event).used side} =
      insert later.current {keys | keys ∈ pair.used side} := by
    ext keys
    simp [act, stands]
  have brought : {keys | keys ∈ (pair.act side event).brought side} =
      {keys | later.next = some keys} ∪ {keys | keys ∈ pair.brought side} := by
    ext keys
    simp [act, stands]
  rw [party, used, brought, Function.update_self]
  rfl

theorem act_party_other (event : PeerManager.Event) (later : Position env) :
    (pair.act side event).party (Function.update position side later) side.other =
      pair.party position side.other := by
  simp only [party, act, Function.update_of_ne side.other_ne]

/-! ### Steps and runs -/

theorem Concordant.act (concordant : pair.Concordant position) {side : Side}
    (genuine : pair.Genuine (.act side event)) (uncrossed : pair.Uncrossed (.act side event)) :
    ∃ moved, (pair.act side event).Concordant moved := by
  obtain ⟨later, standsAt, turned⟩ := ((pair.manager side).shardStep_stepped (.own event)).stands
    rfl genuine.1.1 genuine.1.2 (PeerManager.standing_eq_some_iff.mp (concordant.stands side))
  have stands : (pair.act side event).standing side = some later := by
    rw [act_standing_self]
    exact PeerManager.standing_eq_some_iff.mpr standsAt
  have move := concordant.move genuine uncrossed stands turned
  have sound : KeyExchange.Sound Credentials.mirror (Credentials.Answers env)
      ((pair.act side event).party (Function.update position side later) side)
      ((pair.act side event).party (Function.update position side later) side.other) := by
    rw [act_party_self stands, act_party_other]
    exact (concordant.sound side).move Credentials.mirror_involutive move
  refine ⟨Function.update position side later, fun place => ?_, fun place => ?_⟩
  · rcases place.eq_or_eq_other side with rfl | rfl
    · rw [stands, Function.update_self]
    · rw [act_standing_other, concordant.stands, Function.update_of_ne side.other_ne]
  · rcases place.eq_or_eq_other side with rfl | rfl
    · exact sound
    · rw [Side.other_other]
      exact sound.symm Credentials.mirror_involutive

theorem Concordant.step (concordant : pair.Concordant position) {event : Event}
    (genuine : pair.Genuine event) (uncrossed : pair.Uncrossed event) :
    ∃ moved, (pair.step event).Concordant moved := by
  cases event with
  | act side event => exact concordant.act genuine uncrossed
  | copy | lose => exact ⟨position, concordant.stands, concordant.sound⟩

/-- Two managers that share one epoch and rekey with each other share one epoch again whenever
neither of them waits for an epoch to be confirmed, in every run in which no rekeys cross. -/
theorem rekeying_agrees {keys : Side → Credentials} (joined : pair.Joined keys)
    (events : List Event)
    (admissible : Machine.Admissible step (fun pair event => pair.Genuine event ∧
      pair.Uncrossed event) pair events) :
    ∃ left right, (Machine.run step pair events).current .left = some left ∧
      (Machine.run step pair events).current .right = some right ∧
      ((Machine.run step pair events).next .left = none →
        (Machine.run step pair events).next .right = none → left.mirror = right) := by
  have start := joined.concordant
  have invariant : ∃ position, (Machine.run step pair events).Concordant position := by
    refine Machine.run_invariant step _ (fun pair => ∃ position, pair.Concordant position) ?_ pair
      events start admissible
    rintro pair event ⟨position, concordant⟩ ⟨genuine, uncrossed⟩
    exact concordant.step genuine uncrossed
  obtain ⟨position, concordant⟩ := invariant
  refine ⟨_, _, concordant.current .left, concordant.current .right, ?_⟩
  rw [concordant.next, concordant.next]
  exact (concordant.sound .left).agreement

/-! ### Two runs -/

instance (pair : Pair env) (event : Event) : Decidable (pair.Uncrossed event) := by
  unfold Uncrossed
  split <;> infer_instance

def Plain (pair : Pair env) : Event → Prop
  | .act side (.udp src dg moment) => (pair.manager side).membership.isNone = true ∧
    pair.Unforged side ((pair.manager side).carried src dg) ∧
    pair.Matching side ((pair.manager side).carried src dg) ∧
    pair.NewKeys side ((pair.manager side).carried src dg) moment
  | .act side (.tick _) =>
    (pair.manager side).membership.isNone = true ∧ pair.brought side.other = []
  | .act .. => False
  | .copy .. | .lose .. => True

instance (pair : Pair env) (event : Event) : Decidable (pair.Plain event) := by
  unfold Plain Unforged Matching NewKeys
  split <;> infer_instance

theorem genuine_of_plain {event : Event} (plain : pair.Plain event) : pair.Genuine event := by
  cases event with
  | copy | lose => trivial
  | act side event =>
    cases event with
    | tun | addPeer | admitMember | removePeer | drainNewEpochs => exact plain.elim
    | tick moment =>
      obtain ⟨uncertified, unanswered⟩ := plain
      refine ⟨⟨trivial, ?_⟩, ?_⟩
      · rintro ⟨membership, _, has, _⟩
        rw [has] at uncertified
        cases uncertified
      · intro hs _ _ keys member
        rw [unanswered] at member
        cases member
    | udp src dg moment =>
      obtain ⟨uncertified, trusted⟩ := plain
      refine ⟨⟨trivial, ?_⟩, trusted⟩
      rintro ⟨init, _, _, _, _, _, refused⟩
      have admits : (pair.manager side).certAdmits init.cert init.remoteStatic moment.nowSecs =
          true := by
        rw [PeerManager.certAdmits, PeerManager.responderCertOk,
          isNone_iff_eq_none.mp uncertified]
        exact Bool.or_true _
      rw [admits] at refused
      cases refused

def Carried (pair : Pair env) : Event → Prop
  | .act side (.udp _ dg _) => dg ∈ pair.transit side
  | _ => True

instance (pair : Pair env) : DecidablePred pair.Carried
  | .act side (.udp _ dg _) => inferInstanceAs (Decidable (dg ∈ pair.transit side))
  | .act _ (.tun ..) | .act _ (.tick _) | .act _ (.addPeer ..) | .act _ (.admitMember ..)
  | .act _ (.removePeer _) | .act _ .drainNewEpochs | .copy .. | .lose .. =>
    inferInstanceAs (Decidable True)

section Runs

open Transparent

def strangers : Pair (primitives .bulk) where
  manager := fun
    | .left => Transparent.manager 1 [2] none 0 1
    | .right => Transparent.manager 2 [1] none 0 1
  idx := fun _ => 0
  transit := fun _ => []
  used := fun _ => []
  brought := fun _ => []

def response (seed : Nat) : List Byte := PacketType.handshakeResp.toByte :: toBeBytes 8 seed

def greeting : List Event :=
  [.act .left (.tun [] (moment 0 0 1 1)),
    .act .right (.udp ⟨1, 1⟩ (init 1 1 1 []) (moment 0 0 1 1)),
    .act .left (.udp ⟨2, 2⟩ (response 1) (moment 0 0 1 1)),
    .act .right (.udp ⟨1, 1⟩ (firstData 1 []) (moment 0 0 1 1))]

def acquainted : Pair (primitives .bulk) := Machine.run step strangers greeting

def rekeyed : List Event :=
  [.act .left (.tick (moment 120000 120 2 2)),
    .act .right (.udp ⟨1, 1⟩ (init 1 2 2 []) (moment 120000 120 2 2)),
    .act .left (.udp ⟨2, 2⟩ (response 2) (moment 120000 120 2 2)),
    .act .right (.udp ⟨1, 1⟩ (firstData 2 []) (moment 120000 120 2 2))]

def crossing : List Event :=
  [.act .left (.tick (moment 120000 120 2 2)),
    .act .right (.tick (moment 240000 240 3 3)),
    .act .right (.udp ⟨1, 1⟩ (init 1 2 2 []) (moment 240000 240 3 2)),
    .act .left (.udp ⟨2, 2⟩ (init 2 3 3 []) (moment 120000 120 2 3)),
    -- the Control datagrams of the ticks
    .lose .left 0, .lose .right 0,
    .act .left (.udp ⟨2, 2⟩ (response 2) (moment 120000 120 2 2)),
    .act .right (.udp ⟨1, 1⟩ (response 3) (moment 240000 240 3 3)),
    .act .right (.udp ⟨1, 1⟩ (firstData 2 []) (moment 240000 240 3 3)),
    .act .left (.udp ⟨2, 2⟩ (firstData 3 []) (moment 120000 120 2 2))]

theorem acquainted_joined :
    acquainted.Joined fun side => (established .bulk (side = .left) 1).credentials := by
  refine ⟨fun side => ?_, fun side => ?_, fun side => ?_, fun side => ?_, fun side => ?_,
    fun side => ?_⟩
  all_goals cases side <;> decide +kernel

/-- A rekey that nothing crosses leaves both nodes in the epoch it brings. -/
theorem rekeyed_agrees :
    Machine.Admissible step Carried acquainted rekeyed ∧
      (Machine.run step acquainted rekeyed).current .left =
        some (established .bulk true 2).credentials ∧
      ∃ left right, (Machine.run step acquainted rekeyed).current .left = some left ∧
        (Machine.run step acquainted rekeyed).current .right = some right ∧
        ((Machine.run step acquainted rekeyed).next .left = none →
          (Machine.run step acquainted rekeyed).next .right = none → left.mirror = right) := by
  have admissible : Machine.Admissible step (fun pair event => pair.Plain event ∧
      pair.Uncrossed event) acquainted rekeyed := by decide +kernel
  refine ⟨by decide +kernel, by decide +kernel, ?_⟩
  exact rekeying_agrees acquainted_joined rekeyed
    (admissible.imp step fun _ _ allowed => ⟨genuine_of_plain allowed.1, allowed.2⟩)

/-- Rekeys that cross. Nothing is in flight any more on either side and nothing is on its way, but
each node is in the epoch that the other one has begun. -/
theorem crossing_swaps_epochs :
    (∃ keys, acquainted.Joined keys) ∧
      Machine.Admissible step Carried strangers (greeting ++ crossing) ∧
      Machine.Admissible step Genuine acquainted crossing ∧
      (∀ side, (Machine.run step acquainted crossing).next side = none ∧
        (Machine.run step acquainted crossing).rekey side = none ∧
        (Machine.run step acquainted crossing).transit side = []) ∧
      (Machine.run step acquainted crossing).current .left =
        some (established .bulk false 3).credentials ∧
      (Machine.run step acquainted crossing).current .right =
        some (established .bulk false 2).credentials ∧
      (established .bulk false 3).credentials.mirror ≠ (established .bulk false 2).credentials := by
  have plain : Machine.Admissible step Plain acquainted crossing := by decide +kernel
  refine ⟨⟨_, acquainted_joined⟩, by decide +kernel,
    plain.imp step fun _ _ => genuine_of_plain, fun side => ?_, by decide +kernel,
    by decide +kernel, by decide +kernel⟩
  cases side <;> decide +kernel

end Runs

end Pair

end Yip
