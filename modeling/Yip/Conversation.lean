/-
This file says what the operations of a data plane do on the receiving side, and sets two data
planes that share the keys of one session against each other.
-/

import Yip.Emission
import Yip.Transparent
import Yip.Transport.Reassembly

namespace Yip

open Crypto Transport Wire

/-! ### Windows and reassemblers -/

theorem Crypto.ReplayWindow.latest_commit_lt {window : ReplayWindow} {counter bound : Nat}
    (before : window.started = true → window.latest < bound) (below : counter < bound) :
    (window.commit counter).latest < bound := by
  rw [ReplayWindow.commit_latest]
  split
  · rename_i started
    exact max_lt (before started) below
  · exact below

namespace Transport.FecReassembler

variable (re : FecReassembler) (objectKey : Nat) (symbol : Symbol)

theorem mem_sweepFrom (objectKey nowMs key : Nat) (re : FecReassembler) (queue : List Nat)
    (member : key ∈ (re.sweepFrom objectKey nowMs queue).objects) : key ∈ re.objects := by
  induction queue generalizing re with
  | nil => exact member
  | cons oldest rest ih =>
    unfold sweepFrom at member
    split at member
    · exact member
    · split at member
      · split at member
        · exact (AList.mem_erase.mp (ih _ member)).2
        · exact member
      · exact ih _ member

theorem mem_evict (key : Nat) (re : FecReassembler) (member : key ∈ re.evict.objects) :
    key ∈ re.objects := by
  unfold evict at member
  split at member
  · exact member
  · split at member
    · exact (AList.mem_erase.mp member).2
    · exact member

theorem mem_enter (incoming : Incoming) (objectSize nowMs deadlineMs key : Nat)
    (member : key ∈ (re.enter objectKey incoming objectSize nowMs deadlineMs).objects) :
    key = objectKey ∨ key ∈ re.objects := by
  unfold enter at member
  split at member
  · exact Or.inr member
  · refine ((AList.mem_insert _).mp member).imp_right fun old => ?_
    split at old
    · exact mem_evict key re old
    · exact old

theorem mem_push (nowMs deadlineMs key : Nat)
    (member : key ∈ (re.push objectKey symbol nowMs deadlineMs).1.objects) :
    key = objectKey ∨ key ∈ re.objects := by
  have entered : ∀ incoming, key ∈ ((re.sweep objectKey nowMs).enter objectKey incoming
      symbol.objectSize nowMs deadlineMs).objects → key = objectKey ∨ key ∈ re.objects :=
    fun incoming old => (mem_enter _ _ _ _ _ _ _ old).imp_right (mem_sweepFrom _ _ _ _ _)
  unfold push at member
  split at member
  · exact Or.inr member
  · dsimp only at member
    split at member
    · exact entered _ member
    · rcases (AList.mem_insert _).mp member with same | old
      · exact Or.inl same
      · exact entered _ old

theorem push_symbolSize (nowMs deadlineMs : Nat) :
    (re.push objectKey symbol nowMs deadlineMs).1.symbolSize = re.symbolSize := by
  cases accepted : re.accept objectKey symbol with
  | none => simp only [push, accepted]
  | some incoming => exact (push_object re objectKey symbol incoming accepted _ _ _ rfl).2.1

end Transport.FecReassembler

namespace DataPlane

variable {env : Primitives} (dp : DataPlane env)

structure HeardBelow (bound : Nat) : Prop where
  replay : dp.session.replay.started = true → dp.session.replay.latest < bound
  sizes : ∀ flow re, dp.transport.reassemblers flow = some re →
    re.symbolSize = dp.transport.symbolSize
  objects : ∀ flow re, dp.transport.reassemblers flow = some re →
    ∀ counter ∈ re.objects, counter < bound

variable {dp}

variable {bound : Nat} {after : DataPlane env}

section

variable (heard : dp.HeardBelow bound)

include heard

theorem HeardBelow.mono {larger : Nat} (le : bound ≤ larger) :
    dp.HeardBelow larger where
  replay := fun started => (heard.replay started).trans_le le
  sizes := heard.sizes
  objects := fun flow re known counter member =>
    (heard.objects flow re known counter member).trans_le le

theorem HeardBelow.reassembler (flow : FlowClass) :
    (dp.transport.reassembler flow).symbolSize = dp.transport.symbolSize ∧
      ∀ counter ∈ (dp.transport.reassembler flow).objects, counter < bound := by
  unfold Transport.reassembler
  cases known : dp.transport.reassemblers flow with
  | none => exact ⟨rfl, fun counter member => absurd member (AList.notMem_empty counter)⟩
  | some re => exact ⟨heard.sizes flow re known, heard.objects flow re known⟩

/-- An operation keeps to the bound if the counters of what it takes in and of what it opens do. -/
theorem HeardBelow.acts {addr : SocketAddr} {arrived opened : Option Nat} {sealing : Bool}
    {out : List EgressDatagram} (acts : dp.Acts after addr arrived opened sealing out)
    (arrivedBelow : ∀ counter ∈ arrived, counter < bound)
    (openedBelow : ∀ counter ∈ opened, counter < bound) : after.HeardBelow bound := by
  have replay : after.session.replay.started = true → after.session.replay.latest < bound := by
    rw [acts.replay]
    cases opened with
    | none => exact heard.replay
    | some counter =>
      exact fun _ => ReplayWindow.latest_commit_lt heard.replay (openedBelow counter rfl)
  cases acts.reshaped with
  | keeps reassemblers symbolSize =>
    refine ⟨replay, ?_, ?_⟩
    · rw [reassemblers, symbolSize]
      exact heard.sizes
    · rw [reassemblers]
      exact heard.objects
  | resizes reassemblers symbolSize =>
    refine ⟨replay, ?_, ?_⟩ <;> rw [reassemblers] <;> intro flow re known <;>
      obtain ⟨old, present, rfl⟩ := Option.map_eq_some_iff.mp known
    · exact symbolSize.symm
    · exact heard.objects flow old present
  | hears counter symbol flow nowMs isHeard reassemblers symbolSize =>
    obtain ⟨size, objects⟩ := heard.reassembler flow
    have pushed : ∀ other re, after.transport.reassemblers other = some re →
        re = ((dp.transport.reassembler flow).push counter symbol nowMs
          (dp.transport.paramsFor flow).deadlineMs).1 ∨
        dp.transport.reassemblers other = some re := by
      intro other re known
      rw [reassemblers] at known
      simp only [Transport.decode] at known
      split at known
      · exact Or.inl (Option.some.inj known).symm
      · exact Or.inr known
    refine ⟨replay, ?_, ?_⟩ <;> intro other re known <;>
      rcases pushed other re known with rfl | old
    · rw [FecReassembler.push_symbolSize, size, symbolSize]
    · rw [symbolSize]
      exact heard.sizes other re old
    · intro key member
      rcases FecReassembler.mem_push _ _ _ _ _ _ member with rfl | before
      · exact arrivedBelow key isHeard
      · exact objects key before
    · exact heard.objects other re old

theorem HeardBelow.onUdpDatagram (datagram : List Byte) (nowMs : Nat)
    (below : ReadsBelow env.sip dp.codec bound datagram) :
    (dp.onUdpDatagram datagram nowMs).1.HeardBelow bound := by
  refine heard.acts (dp.onUdpDatagram_acts datagram nowMs) below fun counter opened => ?_
  exact below counter (heardCounter_of_opens opened)

end

end DataPlane

/-! ### Conversations -/

inductive Side where
  | left
  | right
  deriving DecidableEq, Repr

namespace Side

def other : Side → Side
  | left => right
  | right => left

@[simp]
theorem other_other (side : Side) : side.other.other = side := by cases side <;> rfl

@[simp]
theorem other_ne (side : Side) : side.other ≠ side := by cases side <;> decide

theorem eq_or_eq_other (side reference : Side) : side = reference ∨ side = reference.other := by
  cases side <;> cases reference <;> decide

end Side

/-! ### The system -/

/-- Two data planes, with the datagrams sent and the packets written. -/
structure Conversation (env : Primitives) where
  plane : Side → DataPlane env
  sent : Side → List (List Byte)
  written : Side → List (List Byte)

namespace Conversation

variable {env : Primitives}

inductive Event where
  | tun (side : Side) (inner : List Byte) (nowMs : Nat)
  | tick (side : Side) (nowMs jitter : Nat)
  | deliver (side : Side) (index nowMs : Nat)
  | readdress (side : Side) (addr : SocketAddr)
  deriving DecidableEq, Repr

def start (env : Primitives) (established : Side → Established) (connTag : Nat) (l2 obfOn : Bool)
    (peerAddr : Side → SocketAddr) (symbolSize : Nat) : Conversation env where
  plane := fun side => DataPlane.new env (established side) connTag l2 (peerAddr side) obfOn
    symbolSize
  sent := fun _ => []
  written := fun _ => []

def put (talk : Conversation env) (side : Side) (dp : DataPlane env)
    (datagrams : List EgressDatagram) (packets : List (List Byte)) : Conversation env where
  plane := Function.update talk.plane side dp
  sent := Function.update talk.sent side
    (talk.sent side ++ datagrams.map EgressDatagram.bytes)
  written := Function.update talk.written side (talk.written side ++ packets)

def step (talk : Conversation env) : Event → Conversation env
  | .tun side inner nowMs =>
    let (dp, datagrams) := (talk.plane side).onTunPacket inner nowMs
    talk.put side dp datagrams []
  | .tick side nowMs jitter =>
    let (dp, datagram) := (talk.plane side).tick nowMs jitter
    talk.put side dp datagram.toList []
  | .deliver side index nowMs =>
    match (talk.sent side.other)[index]? with
    | none => talk
    | some datagram =>
      let (dp, outcome) := (talk.plane side).onUdpDatagram datagram nowMs
      talk.put side dp outcome.datagrams outcome.packets
  | .readdress side addr => talk.put side ((talk.plane side).setPeerAddr addr) [] []

/-! ### Counters across the network -/

/-- What one side sends the other can read. -/
structure Facing (sender receiver : DataPlane env) (sent : List (List Byte)) : Prop where
  key : sender.session.sendKey = receiver.session.recvKey
  codec : sender.codec = receiver.codec
  sound : sender.Sound
  climbing : sender.plpmtu.Climbing
  sent : ∀ datagram ∈ sent, ReadsBelow env.sip sender.codec sender.session.sendCounter datagram
  heard : receiver.HeardBelow sender.session.sendCounter

def Coherent (talk : Conversation env) : Prop :=
  ∀ side, Facing (talk.plane side) (talk.plane side.other) (talk.sent side)

structure Paired (established : Side → Established) : Prop where
  session : ∀ side, (established side).session =
    Session.fromRawKeys (established side).rawSendKey (established side).rawRecvKey 0 1
  crossed : ∀ side, (established side).rawSendKey = (established side.other).rawRecvKey
  authKey : ∀ side, (established side).authKey = (established side.other).authKey
  hpKey : ∀ side, (established side).hpKey = (established side.other).hpKey

theorem start_coherent (established : Side → Established) (paired : Paired established)
    (connTag : Nat) (l2 obfOn : Bool) (peerAddr : Side → SocketAddr) (symbolSize : Nat) :
    (start env established connTag l2 obfOn peerAddr symbolSize).Coherent := by
  intro side
  refine ⟨?_, ?_, ⟨?_, ?_⟩, PlpmtuController.climbing_new, by simp [start], ⟨?_, ?_, ?_⟩⟩
  · simp only [start, DataPlane.new, paired.session, Session.fromRawKeys]
    exact paired.crossed side
  · simp only [start, DataPlane.new, paired.authKey side, paired.hpKey side]
  · simp [start, DataPlane.new, paired.session, Session.fromRawKeys]
  · intro counter member
    exact absurd member (AList.notMem_empty counter)
  · simp [start, DataPlane.new, paired.session, Session.fromRawKeys, ReplayWindow.new,
      ReplayWindow.newWithProfile]
  · rintro flow re ⟨⟩
  · rintro flow re ⟨⟩

def Event.side : Event → Side
  | tun side _ _ => side
  | tick side _ _ => side
  | deliver side _ _ => side
  | readdress side _ => side

section

variable (talk : Conversation env)

include talk

variable (event : Event) (side : Side) (dp : DataPlane env) (datagrams : List EgressDatagram)
  (packets : List (List Byte))

@[simp]
theorem put_self : talk.put side (talk.plane side) [] [] = talk := by
  simp [put]

theorem step_put :
    ∃ dp datagrams packets, talk.step event = talk.put event.side dp datagrams packets ∧
      ∃ addr heard opened sealing,
        (talk.plane event.side).Acts dp addr heard opened sealing datagrams ∧
        ∀ counter, counter ∈ heard ∨ counter ∈ opened →
          ∃ datagram ∈ talk.sent event.side.other,
            heardCounter env.sip (talk.plane event.side).codec datagram = some counter := by
  cases event with
  | tun side inner nowMs =>
    exact ⟨_, _, _, rfl, _, _, _, _, (talk.plane side).onTunPacket_acts inner nowMs, by simp⟩
  | tick side nowMs jitter =>
    exact ⟨_, _, _, rfl, _, _, _, _, (talk.plane side).tick_acts nowMs jitter, by simp⟩
  | deliver side index nowMs =>
    cases known : (talk.sent side.other)[index]? with
    | none =>
      refine ⟨talk.plane side, [], [], ?_, _, none, _, _, DataPlane.Acts.refl, by simp⟩
      simp only [step, known, Event.side, put_self]
    | some datagram =>
      refine ⟨_, _, _, by simp only [step, known]; rfl, _, _, _, _,
        (talk.plane side).onUdpDatagram_acts datagram nowMs, fun counter read => ?_⟩
      exact ⟨datagram, List.mem_of_getElem? known,
        read.elim id fun opened => DataPlane.heardCounter_of_opens opened⟩
  | readdress side addr =>
    exact ⟨_, _, _, rfl, _, _, _, _, (talk.plane side).setPeerAddr_acts addr, by simp⟩

theorem put_plane :
    (talk.put side dp datagrams packets).plane side = dp ∧
      (talk.put side dp datagrams packets).plane side.other = talk.plane side.other := by
  simp [put]

theorem put_sent :
    (talk.put side dp datagrams packets).sent side =
        talk.sent side ++ datagrams.map EgressDatagram.bytes ∧
      (talk.put side dp datagrams packets).sent side.other = talk.sent side.other := by
  simp [put]

theorem step_coherent (coherent : talk.Coherent) : (talk.step event).Coherent := by
  obtain ⟨dp, datagrams, packets, stepped, _, heard, opened, _, acts, hears⟩ := talk.step_put event
  obtain ⟨ownPlane, otherPlane⟩ := talk.put_plane event.side dp datagrams packets
  obtain ⟨ownSent, otherSent⟩ := talk.put_sent event.side dp datagrams packets
  have sending := coherent event.side
  have receiving := coherent event.side.other
  rw [Side.other_other] at receiving
  intro side
  rw [stepped]
  rcases side.eq_or_eq_other event.side with rfl | rfl
  · rw [ownPlane, otherPlane, ownSent]
    refine ⟨?_, ?_, acts.sound sending.sound, acts.climbing sending.climbing, ?_,
      sending.heard.mono acts.advances⟩
    · exact (congrArg Credentials.sendKey acts.credentials).trans sending.key
    · exact acts.codec.trans sending.codec
    · rw [acts.codec]
      refine List.forall_mem_append.mpr ⟨fun datagram old => ?_,
        List.forall_mem_map.mpr (acts.below sending.sound)⟩
      exact (sending.sent datagram old).mono acts.advances
  · rw [Side.other_other, ownPlane, otherPlane, otherSent]
    refine ⟨?_, ?_, receiving.sound, receiving.climbing, receiving.sent, ?_⟩
    · exact receiving.key.trans (congrArg Credentials.recvKey acts.credentials).symm
    · exact receiving.codec.trans acts.codec.symm
    · have below (counter : Nat) (read : counter ∈ heard ∨ counter ∈ opened) :
          counter < (talk.plane event.side.other).session.sendCounter := by
        obtain ⟨datagram, sent, same⟩ := hears counter read
        exact receiving.sent datagram sent counter (receiving.codec ▸ same)
      exact receiving.heard.acts acts (fun counter heard => below counter (Or.inl heard))
        fun counter opened => below counter (Or.inr opened)

theorem run_coherent (events : List Event) (coherent : talk.Coherent) :
    (Machine.run step talk events).Coherent := by
  induction events generalizing talk with
  | nil => exact coherent
  | cons event rest ih =>
    exact ih _ (step_coherent talk event coherent)

end

/-- Whatever the two data planes of one handshake are given to do, each can read the other, and no
counter is used twice or expected too soon. -/
theorem stays_coherent (pair : { e // Paired e }) (connTag symbolSize : Nat) (l2 obfOn : Bool)
    (peerAddr : Side → SocketAddr) (events : List Event) :
    (Machine.run step (start env pair connTag l2 obfOn peerAddr symbolSize) events).Coherent :=
  run_coherent _ _ (start_coherent _ pair.2 _ _ _ _ _)

/-- The two ends of a handshake with transparent primitives. -/
def ends : { established // Paired established } :=
  ⟨fun side => Transparent.established .default (side = .left) 1, by rintro (_ | _) <;> rfl,
    by rintro (_ | _) <;> rfl, by rintro (_ | _) <;> rfl, by rintro (_ | _) <;> rfl⟩

def transparent (symbolSize : Nat) : Conversation (Transparent.primitives .default) :=
  start _ ends 0 false false (fun _ => ⟨1, 1⟩) symbolSize

/-- A packet is delivered twice, and its receiver moves and ticks. -/
theorem moved_receiver_coherent :
    (Machine.run step (transparent 8) [.tun .left (toBeBytes 4 7) 0, .deliver .right 0 10,
      .deliver .right 0 11, .readdress .right ⟨2, 2⟩, .tick .right 20 0]).Coherent :=
  stays_coherent ends 0 8 false false _ _

end Conversation

end Yip
