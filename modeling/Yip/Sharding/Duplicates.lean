/-
This file is about the datagrams a sharded node receives.
-/

import Yip.Sharding.Nonces
import Yip.Sharding.Replication

namespace Yip

open Crypto Transport List

namespace Replicas

variable {env : Primitives} {home : Nat → Nat} {replicas : Replicas env}

structure Unheard (replicas : Replicas env) : Prop where
  fresh : ∀ shardId dp, replicas.plane shardId = some dp →
    dp.session.replay = ReplayWindow.new
  accepted : replicas.accepted = []
  written : replicas.written = []

def Steered (home : Nat → Nat) (replicas : Replicas env) : Event env → Prop
  | .act shardId (.udp datagram _) => ∀ dp counter, replicas.plane shardId = some dp →
    heardCounter env.sip dp.codec datagram = some counter →
    home counter = shardId ∧ ¬dp.session.replay.Aliased counter
  | .act _ (.tun ..) | .act _ (.tick ..) | .act _ (.readdress _) | .act _ (.shard ..)
  | .act _ (.repairRatio _) | .deliver .. => True

structure Separate (home : Nat → Nat) (replicas : Replicas env) : Prop where
  unique : replicas.accepted.Nodup
  written : replicas.written.Sublist replicas.accepted
  placed : ∀ counter ∈ replicas.accepted, (replicas.plane (home counter)).isSome
  remembers : ∀ shardId dp, replicas.plane shardId = some dp →
    dp.session.replay.Remembers (replicas.accepted.filter fun counter => home counter = shardId)

theorem Unheard.separate (unheard : replicas.Unheard) : replicas.Separate home where
  unique := by
    rw [unheard.accepted]
    exact nodup_nil
  written := by
    rw [unheard.written]
    exact nil_sublist _
  placed := by
    rw [unheard.accepted]
    exact fun _ member => nomatch member
  remembers := fun shardId dp present => by
    rw [unheard.accepted, unheard.fresh shardId dp present]
    exact ReplayWindow.remembers_new _

theorem steered_of_opens {shardId : Nat} {dp : DataPlane env} {event : DataPlane.Event}
    {counter : Nat} (steered : replicas.Steered home (.act shardId event))
    (present : replicas.plane shardId = some dp) (opened : dp.opens event = some counter) :
    home counter = shardId ∧ ¬dp.session.replay.Aliased counter := by
  cases event with
  | udp datagram nowMs =>
    simp only [DataPlane.opens] at opened
    split at opened
    · exact steered dp counter present opened
    · cases opened
  | tun | tick | readdress | shard | repairRatio => cases opened

theorem Separate.deliver (separate : replicas.Separate home) (shardId : Nat)
    (pm : PeerManager env) : (replicas.step (.deliver shardId pm)).Separate home := by
  unfold step
  dsimp only
  split
  · rename_i worker
    have absent : replicas.plane shardId = none := Option.isNone_iff_eq_none.mp worker.2.2
    have elsewhere : ∀ counter ∈ replicas.accepted, home counter ≠ shardId := by
      intro counter member same
      have placed := separate.placed counter member
      rw [same, absent] at placed
      cases placed
    refine ⟨separate.unique, separate.written, fun counter member => ?_, fun position dp held => ?_⟩
    · dsimp only
      rw [Function.update_of_ne (elsewhere counter member)]
      exact separate.placed counter member
    · dsimp only at held ⊢
      by_cases own : position = shardId
      · subst own
        rw [Function.update_self] at held
        rw [PeerManager.installedPlane_session held, filter_eq_nil_iff.mpr]
        · exact ReplayWindow.remembers_new _
        · simpa using elsewhere
      · rw [Function.update_of_ne own] at held
        exact separate.remembers position dp held
  · exact separate

theorem Separate.opens_new (separate : replicas.Separate home) {shardId : Nat} {dp : DataPlane env}
    (present : replicas.plane shardId = some dp) {event : DataPlane.Event}
    (steered : replicas.Steered home (.act shardId event)) {counter : Nat}
    (opened : dp.opens event = some counter) : counter ∉ replicas.accepted := by
  obtain ⟨own, notAliased⟩ := steered_of_opens steered present opened
  intro member
  have seen : counter ∈ replicas.accepted.filter fun counter => home counter = shardId :=
    mem_filter.mpr ⟨member, decide_eq_true own⟩
  have refused := ((separate.remembers shardId dp present).check_eq_false_iff seen).mpr notAliased
  have passed := dp.checkReplay_of_opens opened
  rw [Session.checkReplay, refused] at passed
  cases passed

theorem written_sublist (dp : DataPlane env) (event : DataPlane.Event) :
    (dp.writes event).toList.Sublist (dp.opens event).toList := by
  cases written : dp.writes event with
  | none => exact nil_sublist _
  | some counter => rw [dp.opens_of_writes written]

section Acting

variable {shardId : Nat} {dp : DataPlane env} {event : DataPlane.Event}

theorem acted_accepted : (replicas.acted shardId dp event).accepted =
    (dp.opens event).toList ++ replicas.accepted := rfl

section

variable (separate : replicas.Separate home) (present : replicas.plane shardId = some dp)
  (steered : replicas.Steered home (.act shardId event))

include separate present steered

theorem Separate.acted_unique : (replicas.acted shardId dp event).accepted.Nodup := by
  rw [acted_accepted]
  cases opened : dp.opens event with
  | none => exact separate.unique
  | some counter =>
    exact nodup_cons.mpr ⟨separate.opens_new present steered opened, separate.unique⟩

theorem Separate.acted_placed (counter : Nat)
    (member : counter ∈ (replicas.acted shardId dp event).accepted) :
    ((replicas.acted shardId dp event).plane (home counter)).isSome := by
  by_cases own : home counter = shardId
  · rw [own, acted_plane_self]
    rfl
  · rw [acted_plane_of_ne event own]
    rcases mem_append.mp member with now | earlier
    · exact absurd (steered_of_opens steered present (Option.mem_toList.mp now)).1 own
    · exact separate.placed counter earlier

theorem Separate.acted_remembers (position : Nat) (later : DataPlane env)
    (held : (replicas.acted shardId dp event).plane position = some later) :
    later.session.replay.Remembers
      ((replicas.acted shardId dp event).accepted.filter fun counter =>
        home counter = position) := by
  rw [acted_accepted, filter_append]
  by_cases own : position = shardId
  · subst own
    rw [acted_plane_self, Option.some.injEq] at held
    subst held
    have before := separate.remembers position dp present
    rw [dp.step_replay event]
    cases opened : dp.opens event with
    | none => exact before
    | some counter =>
      obtain ⟨belongs, notAliased⟩ := steered_of_opens steered present opened
      have kept : [counter].filter (fun counter => home counter = position) = [counter] := by
        simp [belongs]
      rw [Option.toList_some, kept]
      exact before.commit notAliased (dp.checkReplay_of_opens opened)
  · rw [acted_plane_of_ne event own] at held
    -- what this shard has opened is not for the other one
    rw [filter_eq_nil_iff.mpr, nil_append]
    · exact separate.remembers position later held
    · intro counter now
      rw [(steered_of_opens steered present (Option.mem_toList.mp now)).1]
      simpa using Ne.symm own

theorem Separate.act :
    (replicas.acted shardId dp event).Separate home where
  unique := separate.acted_unique present steered
  written := (written_sublist dp event).append separate.written
  placed := separate.acted_placed present steered
  remembers := separate.acted_remembers present steered

end

end Acting

theorem Separate.run (separate : replicas.Separate home) (events : List (Event env))
    (steered : Machine.Admissible step (Steered home) replicas events) :
    (Machine.run step replicas events).Separate home := by
  refine Machine.run_invariant step (Steered home) (Separate home) ?_ replicas events separate
    steered
  intro state event holds allowed
  cases event with
  | deliver shardId pm => exact holds.deliver shardId pm
  | act shardId event =>
    cases present : state.plane shardId with
    | none =>
      simp only [step, present]
      exact holds
    | some dp =>
      rw [step_act present]
      exact holds.act present allowed

/-- In every run in which each datagram reaches the shard of its counter and no window has lost the
counter, the node as a whole accepts each counter at most once and writes its packet at most
once. -/
theorem node_accepts_once (unheard : replicas.Unheard) (home : Nat → Nat)
    (events : List (Event env))
    (steered : Machine.Admissible step (Steered home) replicas events) :
    (Machine.run step replicas events).accepted.Nodup ∧
      (Machine.run step replicas events).written.Nodup := by
  have separate : (Machine.run step replicas events).Separate home :=
    unheard.separate.run events steered
  exact ⟨separate.unique, separate.unique.sublist separate.written⟩

section Runs

open Transparent

def freshPair : Replicas (primitives .bulk) where
  numShards := 2
  msg := ⟨key 1, (established .bulk false 1).rawSendKey, (established .bulk false 1).rawRecvKey,
    (established .bulk false 1).authKey, (established .bulk false 1).hpKey, some ⟨1, 1⟩⟩
  plane := fun shardId => if shardId = 0 then some (dataPlane .bulk false 1 1200) else none
  sealed := []
  accepted := []
  written := []

def repeatedDatagram : List (Event (primitives .bulk)) :=
  [.deliver 1 (PeerManager.new (config 2 [1] none 1 2)), .act 0 (.udp (firstData 1 [0]) 5),
    .act 0 (.udp (firstData 1 [0]) 6)]

theorem not_aliased_of_latest_lt {window : ReplayWindow} (low : window.latest < 64)
    (counter : Nat) : ¬window.Aliased counter := by
  rintro ⟨_, _, _, far⟩
  have positive := window.profile.words_pos
  omega

theorem repeatedDatagram_accepted_once :
    (Machine.run step freshPair repeatedDatagram).accepted = [0] ∧
      (Machine.run step freshPair repeatedDatagram).accepted.Nodup ∧
      (Machine.run step freshPair repeatedDatagram).written.Nodup := by
  have unheard : freshPair.Unheard := by
    refine ⟨fun shardId dp present => ?_, rfl, rfl⟩
    by_cases zero : shardId = 0
    · simp only [freshPair, if_pos zero, Option.some.injEq] at present
      rw [← present]
      rfl
    · simp only [freshPair, if_neg zero] at present
      cases present
  have low (replicas : Replicas (primitives .bulk))
      (all : (replicas.plane 0).all (fun dp => decide (dp.session.replay.latest < 64)) = true)
      (datagram : List Byte) (nowMs : Nat) :
      replicas.Steered (fun _ => 0) (.act 0 (.udp datagram nowMs)) := by
    intro dp counter present _
    rw [present, Option.all_some, decide_eq_true_eq] at all
    exact ⟨rfl, not_aliased_of_latest_lt all counter⟩
  have steered : Machine.Admissible step (Steered fun _ => 0) freshPair repeatedDatagram :=
    ⟨trivial, low _ (by decide +kernel) _ _, low _ (by decide +kernel) _ _, trivial⟩
  exact ⟨by decide +kernel, node_accepts_once unheard (fun _ => 0) repeatedDatagram steered⟩

end Runs

end Replicas

namespace Node

open Transparent

/-- A session comes up on both shards. One datagram of the peer and its copy, received by one shard
each, write the packet twice. -/
theorem copied_datagram_written_twice :
    (Machine.run Node.step (Node.new (config 2 [1] none 0 2) 2)
      (coldStart ++ [.receive 0 ⟨1, 1⟩ (firstData 1 [1]) (moment 1 0 0 2),
        .receive 1 ⟨1, 1⟩ (firstData 1 [1]) (moment 1 0 0 2)])).written = [[1], [1]] := by
  decide +kernel

end Node

end Yip
