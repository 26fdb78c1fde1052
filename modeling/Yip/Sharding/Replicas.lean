/-
This file follows one epoch over all shards of a node.
-/

import Yip.PeerManager.Traversal
import Yip.Sharding

namespace Yip

open Crypto Transport List

/-! ### The planes of a worker -/

namespace PeerManager

variable {env : Primitives}

def currentPlane (pm : PeerManager env) (pubkey : Key) : Option (DataPlane env) :=
  (pm.peers.find? fun peer => peer.pubkey = pubkey).bind fun peer =>
    match peer.state with
    | .idle | .handshaking _ => none
    | .established epochs => some epochs.current

def installedPlane (pm : PeerManager env) (msg : SessionEpochMsg) (shardId numShards : Nat) :
    Option (DataPlane env) :=
  (pm.installEstablishedSession msg.peerPk (msg.established shardId numShards)
    msg.endpoint).currentPlane msg.peerPk

theorem find?_modify_of_findIdx? {peers : List (Peer env)} {property : Peer env → Bool} {idx : Nat}
    {peer : Peer env} (found : peers.findIdx? property = some idx) (holds : peers[idx]? = some peer)
    (f : Peer env → Peer env) (keeps : ∀ peer, property (f peer) = property peer) :
    (peers.modify idx f).find? property = some (f peer) := by
  obtain ⟨bound, isFirst, earlier⟩ := findIdx?_eq_some_iff_getElem.mp found
  rw [getElem?_eq_getElem bound, Option.some.injEq] at holds
  rw [find?_eq_some_iff_getElem]
  refine ⟨?_, idx, ?_, ?_, ?_⟩
  · rw [keeps, ← holds]
    exact isFirst
  · rw [length_modify]
    exact bound
  · rw [getElem_modify, if_pos rfl, holds]
  · intro position less
    rw [getElem_modify, if_neg (by omega)]
    simpa using earlier position less

theorem installedPlane_session {pm : PeerManager env} {msg : SessionEpochMsg}
    {shardId numShards : Nat} {dp : DataPlane env}
    (installed : pm.installedPlane msg shardId numShards = some dp) :
    dp.session = Session.fromRawKeys msg.sendKey msg.recvKey shardId numShards := by
  unfold installedPlane installEstablishedSession at installed
  extract_lets admitted at installed
  split at installed
  · rename_i absent
    unfold currentPlane at installed
    rw [find?_eq_none.mpr] at installed
    · cases installed
    · intro peer member
      rw [position_eq_none absent member]
      exact Bool.false_ne_true
  · rename_i idx found
    obtain ⟨peer, holds, _⟩ := position_eq_some found
    unfold currentPlane modifyPeer at installed
    rw [find?_modify_of_findIdx? found holds] at installed
    · obtain rfl := Option.some.inj installed
      dsimp only [EpochSet.setFecRepairRatio, EpochSet.new]
      split <;> rfl
    · exact fun _ => rfl

theorem installedPlane_of_known {pm : PeerManager env} {msg : SessionEpochMsg}
    (shardId numShards : Nat) (known : ∃ peer ∈ pm.peers, peer.pubkey = msg.peerPk) :
    ∃ dp, pm.installedPlane msg shardId numShards = some dp := by
  obtain ⟨peer, member, isPeer⟩ := known
  have here : pm.peers.any (fun peer => peer.pubkey = msg.peerPk) = true :=
    any_eq_true.mpr ⟨peer, member, decide_eq_true isPeer⟩
  unfold installedPlane installEstablishedSession
  rw [if_pos here]
  dsimp only
  split
  · rename_i absent
    have other := position_eq_none absent member
    simp [isPeer] at other
  · rename_i idx found
    obtain ⟨first, holds, _⟩ := position_eq_some found
    unfold currentPlane modifyPeer
    rw [find?_modify_of_findIdx? found holds]
    · exact ⟨_, rfl⟩
    · exact fun _ => rfl

end PeerManager

/-! ### One epoch on all shards -/

/-- The data planes of one session, one for each worker. -/
structure Replicas (env : Primitives) where
  numShards : Nat
  msg : SessionEpochMsg
  plane : Nat → Option (DataPlane env)
  sealed : List (Key × Nat)
  accepted : List Nat
  written : List Nat

namespace Replicas

variable {env : Primitives}

inductive Event (env : Primitives) where
  | deliver (shardId : Nat) (pm : PeerManager env)
  | act (shardId : Nat) (event : DataPlane.Event)

def entries (dp : DataPlane env) (event : DataPlane.Event) : List (Key × Nat) :=
  if dp.seals event then [(dp.session.sendKey, dp.session.sendCounter)] else []

def acted (replicas : Replicas env) (shardId : Nat) (dp : DataPlane env)
    (event : DataPlane.Event) : Replicas env :=
  { replicas with
    plane := Function.update replicas.plane shardId (some (dp.step event))
    sealed := entries dp event ++ replicas.sealed
    accepted := (dp.opens event).toList ++ replicas.accepted
    written := (dp.writes event).toList ++ replicas.written }

def step (replicas : Replicas env) : Event env → Replicas env
  | .deliver shardId pm =>
    if 0 < shardId ∧ shardId < replicas.numShards ∧ (replicas.plane shardId).isNone then
      { replicas with
        plane := Function.update replicas.plane shardId
          (pm.installedPlane replicas.msg shardId replicas.numShards) }
    else replicas
  | .act shardId event =>
    match replicas.plane shardId with
    | none => replicas
    | some dp => replicas.acted shardId dp event

theorem step_act {replicas : Replicas env} {shardId : Nat} {dp : DataPlane env}
    (present : replicas.plane shardId = some dp) (event : DataPlane.Event) :
    replicas.step (.act shardId event) = replicas.acted shardId dp event := by
  simp only [step, present]

theorem step_deliver {replicas : Replicas env} {shardId : Nat} {pm : PeerManager env}
    {dp : DataPlane env} (positive : 0 < shardId) (bound : shardId < replicas.numShards)
    (absent : replicas.plane shardId = none)
    (installed : pm.installedPlane replicas.msg shardId replicas.numShards = some dp) :
    (replicas.step (.deliver shardId pm)).plane shardId = some dp ∧
      (replicas.step (.deliver shardId pm)).sealed = replicas.sealed := by
  have taken : 0 < shardId ∧ shardId < replicas.numShards ∧ (replicas.plane shardId).isNone := by
    rw [absent]
    exact ⟨positive, bound, rfl⟩
  simp only [step, if_pos taken, Function.update_self, installed, and_self]

def Roomy (replicas : Replicas env) : Event env → Prop
  | .deliver .. => True
  | .act shardId event => ∀ dp, replicas.plane shardId = some dp → dp.seals event = true →
    dp.session.HasRoom

/-- Each worker counts in a residue of its own. -/
structure Partitioned (replicas : Replicas env) : Prop where
  residue : ∀ shardId dp, replicas.plane shardId = some dp →
    shardId < replicas.numShards ∧ dp.session.stride = replicas.numShards ∧
      (dp.session.HasRoom → dp.session.sendCounter % replicas.numShards = shardId)
  behind : ∀ entry ∈ replicas.sealed, ∃ dp,
    replicas.plane (entry.2 % replicas.numShards) = some dp ∧ entry.2 < dp.session.sendCounter
  unique : replicas.sealed.Nodup

theorem Partitioned.deliver {replicas : Replicas env} (partitioned : replicas.Partitioned)
    (shardId : Nat) (pm : PeerManager env) : (replicas.step (.deliver shardId pm)).Partitioned := by
  unfold step
  dsimp only
  split
  · rename_i worker
    refine ⟨?_, ?_, partitioned.unique⟩
    · intro position dp present
      dsimp only at present
      by_cases own : position = shardId
      · subst own
        rw [Function.update_self] at present
        rw [PeerManager.installedPlane_session present]
        refine ⟨worker.2.1, ?_, fun _ => Nat.mod_eq_of_lt worker.2.1⟩
        exact if_neg (by omega)
      · rw [Function.update_of_ne own] at present
        exact partitioned.residue position dp present
    · intro entry member
      obtain ⟨dp, present, past⟩ := partitioned.behind entry member
      refine ⟨dp, ?_, past⟩
      dsimp only
      rw [Function.update_of_ne, present]
      intro same
      rw [same] at present
      rw [present] at worker
      cases worker.2.2
  · exact partitioned

section Acting

variable {replicas : Replicas env} {shardId : Nat} {dp : DataPlane env}

theorem acted_plane_self (event : DataPlane.Event) :
    (replicas.acted shardId dp event).plane shardId = some (dp.step event) :=
  Function.update_self ..

theorem acted_plane_of_ne (event : DataPlane.Event) {position : Nat} (other : position ≠ shardId) :
    (replicas.acted shardId dp event).plane position = replicas.plane position :=
  Function.update_of_ne other ..

section

variable (partitioned : replicas.Partitioned) (present : replicas.plane shardId = some dp)
  (event : DataPlane.Event)

include partitioned present event

theorem Partitioned.acted_residue (position : Nat) (later : DataPlane env)
    (held : (replicas.acted shardId dp event).plane position = some later) :
    position < replicas.numShards ∧ later.session.stride = replicas.numShards ∧
      (later.session.HasRoom → later.session.sendCounter % replicas.numShards = position) := by
  by_cases own : position = shardId
  · subst own
    obtain ⟨bound, stride, residue⟩ := partitioned.residue position dp present
    obtain ⟨sameStride, counter⟩ := dp.step_sendCounter event
    rw [acted_plane_self, Option.some.injEq] at held
    subst held
    refine ⟨bound, sameStride.trans stride, fun room => ?_⟩
    have before : dp.session.HasRoom := by
      unfold Session.HasRoom at room ⊢
      split at counter <;> omega
    rw [counter]
    split
    · rw [stride, Nat.add_mod_right]
      exact residue before
    · exact residue before
  · rw [acted_plane_of_ne event own] at held
    exact partitioned.residue position later held

theorem Partitioned.acted_behind (entry : Key × Nat) (member : entry ∈ replicas.sealed) :
    ∃ later, (replicas.acted shardId dp event).plane (entry.2 % replicas.numShards) = some later ∧
      entry.2 < later.session.sendCounter := by
  obtain ⟨holder, held, past⟩ := partitioned.behind entry member
  by_cases own : entry.2 % replicas.numShards = shardId
  · rw [own, present, Option.some.injEq] at held
    subst held
    refine ⟨_, by rw [own, acted_plane_self], past.trans_le ?_⟩
    rw [(dp.step_sendCounter event).2]
    split <;> omega
  · exact ⟨holder, by rw [acted_plane_of_ne event own, held], past⟩

theorem Partitioned.act (room : dp.seals event = true → dp.session.HasRoom) :
    (replicas.acted shardId dp event).Partitioned := by
  obtain ⟨bound, stride, residue⟩ := partitioned.residue shardId dp present
  have logged : (replicas.acted shardId dp event).sealed = entries dp event ++ replicas.sealed :=
    rfl
  unfold entries at logged
  by_cases sealing : dp.seals event = true
  · rw [if_pos sealing, singleton_append] at logged
    have shard := residue (room sealing)
    refine ⟨partitioned.acted_residue present event, ?_, ?_⟩
    · intro entry member
      rw [logged] at member
      rcases mem_cons.mp member with rfl | early
      · refine ⟨dp.step event, ?_, ?_⟩
        · exact (congrArg _ shard).trans (acted_plane_self event)
        · rw [(dp.step_sendCounter event).2, if_pos ⟨sealing, room sealing⟩, stride]
          omega
      · exact partitioned.acted_behind present event entry early
    · rw [logged]
      refine nodup_cons.mpr ⟨fun early => ?_, partitioned.unique⟩
      -- an earlier seal under this counter would be behind the plane that seals now
      obtain ⟨holder, held, past⟩ := partitioned.behind _ early
      rw [shard, present, Option.some.injEq] at held
      subst held
      exact lt_irrefl _ past
  · rw [if_neg sealing, nil_append] at logged
    refine ⟨partitioned.acted_residue present event, ?_, logged ▸ partitioned.unique⟩
    rw [logged]
    exact partitioned.acted_behind present event

end

end Acting

theorem Partitioned.run {replicas : Replicas env} (partitioned : replicas.Partitioned)
    (events : List (Event env)) (roomy : Machine.Admissible step Roomy replicas events) :
    (Machine.run step replicas events).Partitioned := by
  refine Machine.run_invariant step Roomy Partitioned ?_ replicas events partitioned roomy
  intro state event holds allowed
  cases event with
  | deliver shardId pm => exact holds.deliver shardId pm
  | act shardId event =>
    unfold step
    dsimp only
    split
    · exact holds
    · rename_i dp present
      exact holds.act present event (allowed dp present)

end Replicas

end Yip
