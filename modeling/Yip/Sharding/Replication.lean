/-
This file follows an epoch from shard 0 to the other shards.
-/

import Yip.PeerManager.Tables
import Yip.Sharding

namespace Yip

open Crypto Transport List Option

/-! ### The epochs of one manager -/

def lastFor (pubkey : Key) (msgs : List SessionEpochMsg) : Option Credentials :=
  (msgs.reverse.find? fun msg => msg.peerPk = pubkey).map SessionEpochMsg.credentials

theorem lastFor_append (pubkey : Key) (first second : List SessionEpochMsg) :
    lastFor pubkey (first ++ second) = (lastFor pubkey second).or (lastFor pubkey first) := by
  simp only [lastFor, reverse_append, find?_append, map_or]

namespace PeerManager

variable {env : Primitives}

def HasEpoch (pm : PeerManager env) (pubkey : Key) (credentials : Credentials) : Prop :=
  ∃ peer ∈ pm.peers, peer.pubkey = pubkey ∧ ∃ epochs, peer.state = .established epochs ∧
    epochs.current.credentials = credentials

section Epochs

variable {pm after : PeerManager env} {pubkey : Key} {credentials : Credentials}

theorem mem_modify {peers : List (Peer env)} {idx : Nat} {f : Peer env → Peer env}
    {peer : Peer env} (member : peer ∈ peers.modify idx f) :
    ∃ position old, peers[position]? = some old ∧ peer = if idx = position then f old else old := by
  obtain ⟨position, found⟩ := mem_iff_getElem?.mp member
  rw [getElem?_modify] at found
  obtain ⟨old, holds, same⟩ := map_eq_some_iff.mp found
  exact ⟨position, old, holds, same.symm⟩

theorem Change.hasEpoch (change : Change False pm after)
    (has : after.HasEpoch pubkey credentials) : pm.HasEpoch pubkey credentials := by
  obtain ⟨peer, member, isKey, epochs, live, current⟩ := has
  cases change with
  | adjust idx f peers _ _ _ _ keeps =>
    rw [peers] at member
    obtain ⟨position, old, holds, rfl⟩ := mem_modify member
    by_cases here : idx = position
    · subst here
      rw [if_pos rfl] at isKey live
      obtain ⟨same, keeps⟩ := keeps old holds
      obtain impossible | ⟨before, was, kept⟩ := keeps epochs live
      · exact impossible.elim
      · exact ⟨old, mem_of_getElem? holds, same.symm.trans isKey, before, was,
          kept.symm.trans current⟩
    · rw [if_neg here] at isKey live
      exact ⟨old, mem_of_getElem? holds, isKey, epochs, live, current⟩
  | push added idle _ pushed =>
    subst pushed
    rcases mem_append.mp member with known | new
    · exact ⟨peer, known, isKey, epochs, live, current⟩
    · rw [mem_singleton.mp new, idle] at live
      cases live

theorem Changes.hasEpoch (changes : Changes False pm after)
    (has : after.HasEpoch pubkey credentials) : pm.HasEpoch pubkey credentials := by
  induction changes with
  | refl => exact has
  | tail _ change ih => exact ih (change.hasEpoch has)

variable {mayConfirm : Prop}

theorem Change.newEpochs_eq (change : Change mayConfirm pm after) :
    after.newEpochs = pm.newEpochs := by
  cases change with
  | adjust _ _ _ _ _ newEpochs => exact newEpochs
  | push _ _ _ pushed => rw [pushed, pushPeer]

theorem Changes.newEpochs_eq (changes : Changes mayConfirm pm after) :
    after.newEpochs = pm.newEpochs := by
  induction changes with
  | refl => rfl
  | tail _ change ih => exact change.newEpochs_eq.trans ih

theorem Change.keys_nodup (change : Change mayConfirm pm after) (distinct : pm.keys.Nodup) :
    after.keys.Nodup := by
  cases change with
  | adjust idx f peers _ _ _ _ keeps =>
    unfold keys
    rw [peers, keys_modify fun peer holds => (keeps peer holds).1]
    exact distinct
  | push peer _ fresh pushed =>
    subst pushed
    unfold keys pushPeer
    rw [map_append, nodup_append]
    refine ⟨distinct, by simp, ?_⟩
    intro known member new isNew same
    obtain ⟨old, holds, rfl⟩ := mem_map.mp member
    rw [map_singleton, mem_singleton] at isNew
    exact fresh old holds (same.trans isNew)

theorem Changes.keys_nodup (changes : Changes mayConfirm pm after) (distinct : pm.keys.Nodup) :
    after.keys.Nodup := by
  induction changes with
  | refl => exact distinct
  | tail _ change ih => exact change.keys_nodup ih

theorem position_unique (distinct : pm.keys.Nodup) {first second : Nat} {peer other : Peer env}
    (here : pm.peers[first]? = some peer) (there : pm.peers[second]? = some other)
    (same : peer.pubkey = other.pubkey) : first = second := by
  have bound : first < pm.keys.length := by
    simpa [keys] using (List.getElem?_eq_some_iff.mp here).1
  refine (getElem?_inj bound distinct).mp ?_
  simp [keys, here, there, same]

theorem Announces.hasEpoch (announces : pm.Announces after) (distinct : pm.keys.Nodup) :
    ∃ msg, after.newEpochs = pm.newEpochs ++ [msg] ∧ ∀ pubkey credentials,
      after.HasEpoch pubkey credentials →
        msg.peerPk = pubkey ∧ msg.credentials = credentials ∨
          msg.peerPk ≠ pubkey ∧ pm.HasEpoch pubkey credentials := by
  obtain ⟨idx, f, peer, epochs, here, peers, _, _, newEpochs, isPeer, state, derived, _⟩ :=
    announces
  refine ⟨_, newEpochs, ?_⟩
  rintro pubkey credentials ⟨found, member, isKey, current, live, keys⟩
  rw [peers] at member
  obtain ⟨position, old, holds, rfl⟩ := mem_modify member
  by_cases same : idx = position
  · subst same
    cases here.symm.trans holds
    rw [if_pos rfl] at isKey live
    rw [state] at live
    cases live
    exact Or.inl ⟨isKey, derived.symm.trans keys⟩
  · rw [if_neg same] at isKey live
    refine Or.inr ⟨fun collision => same ?_,
      old, mem_of_getElem? holds, isKey, current, live, keys⟩
    exact position_unique distinct here holds
      (isPeer.symm.trans ((show (f peer).pubkey = pubkey from collision).trans isKey.symm))

theorem Episode.hasEpoch (episode : Episode False pm after) (distinct : pm.keys.Nodup) :
    ∃ msgs, msgs.length ≤ 1 ∧ after.newEpochs = pm.newEpochs ++ msgs ∧
      ∀ pubkey credentials, after.HasEpoch pubkey credentials →
        lastFor pubkey msgs = some credentials ∨
          lastFor pubkey msgs = none ∧ pm.HasEpoch pubkey credentials := by
  obtain ⟨quiet, changes, rfl | announces⟩ := episode
  · exact ⟨[], by simp, by rw [changes.newEpochs_eq, append_nil],
      fun pubkey credentials has => Or.inr ⟨rfl, changes.hasEpoch has⟩⟩
  · obtain ⟨msg, newEpochs, tells⟩ := announces.hasEpoch (changes.keys_nodup distinct)
    refine ⟨[msg], by simp, by rw [newEpochs, changes.newEpochs_eq],
      fun pubkey credentials has => ?_⟩
    rcases tells pubkey credentials has with ⟨about, same⟩ | ⟨other, had⟩
    · exact Or.inl (by simp [lastFor, about, same])
    · exact Or.inr ⟨by simp [lastFor, other], changes.hasEpoch had⟩

theorem Episode.keys_nodup (episode : Episode mayConfirm pm after) (distinct : pm.keys.Nodup) :
    after.keys.Nodup := by
  obtain ⟨quiet, changes, rfl | announces⟩ := episode
  · exact changes.keys_nodup distinct
  · exact announces.keys_eq ▸ changes.keys_nodup distinct

theorem Episode.mono {few many : Prop} (more : few → many) (episode : Episode few pm after) :
    Episode many pm after := by
  obtain ⟨quiet, changes, ends⟩ := episode
  exact ⟨quiet, changes.mono more, ends⟩

theorem onUdpDispatch_plain_changes {src : SocketAddr} {dg : List Byte} {moment : Moment}
    {result : PeerManager env × DispatchOut} (plain : isHandshake dg = false)
    (elsewhere : ¬(pm.rendezvous.isSome ∧ src = pm.serverAddr))
    (handled : pm.onUdpDispatch src dg moment = some result) :
    Changes (pm.Confirms dg moment.nowMs) pm result.1 := by
  unfold onUdpDispatch at handled
  split at handled
  · cases handled
    exact .refl
  · rename_i kind rest
    simp only [isHandshake, head?_cons, some.injEq, decide_eq_false_iff_not,
      not_or] at plain
    rw [if_neg elsewhere, if_neg plain.1, if_neg plain.2] at handled
    split at handled
    · cases handled
      exact onGossip_changes ..
    · exact handleDataOrControl_changes src _ moment.nowMs handled

theorem keys_modifyPeer {idx : Nat} {f : Peer env → Peer env}
    (pubkey : ∀ peer, (f peer).pubkey = peer.pubkey) : (pm.modifyPeer idx f).keys = pm.keys :=
  keys_modify fun peer _ => pubkey peer

theorem installEstablishedSession_hasEpoch (msg : SessionEpochMsg) (shardId numShards : Nat)
    (distinct : pm.keys.Nodup) :
    let after := pm.installEstablishedSession msg.peerPk (msg.established shardId numShards)
      msg.endpoint
    after.keys.Nodup ∧ ∀ pubkey credentials, after.HasEpoch pubkey credentials →
      msg.peerPk = pubkey ∧ msg.credentials = credentials ∨
        msg.peerPk ≠ pubkey ∧ pm.HasEpoch pubkey credentials := by
  unfold installEstablishedSession
  dsimp only
  generalize known : (if pm.peers.any (fun peer => peer.pubkey = msg.peerPk) then pm
    else pm.admitMember msg.peerPk msg.endpoint.toList 0) = admitted
  have changes : Changes False pm admitted := by
    rw [← known]
    split
    · exact .refl
    · exact admitMember_changes ..
  have distinct := changes.keys_nodup distinct
  split
  · rename_i absent
    refine ⟨distinct, fun pubkey credentials has => ?_⟩
    refine Or.inr ⟨fun same => ?_, changes.hasEpoch has⟩
    obtain ⟨peer, member, isKey, _⟩ := has
    have other := position_eq_none absent member
    simp [isKey, same] at other
  · rename_i idx found
    obtain ⟨peer, here, isPeer⟩ := position_eq_some found
    have isPeer : peer.pubkey = msg.peerPk := of_decide_eq_true isPeer
    refine ⟨?_, ?_⟩
    · rw [keys_modifyPeer]
      · exact distinct
      · exact fun _ => rfl
    · rintro pubkey credentials ⟨now, member, isKey, epochs, live, current⟩
      obtain ⟨position, old, holds, rfl⟩ := mem_modify member
      by_cases same : idx = position
      · subst same
        cases here.symm.trans holds
        rw [if_pos rfl] at isKey live
        cases live
        refine Or.inl ⟨isPeer.symm.trans isKey, current ▸ ?_⟩
        dsimp only [EpochSet.setFecRepairRatio, EpochSet.new]
        split <;> rfl
      · rw [if_neg same] at isKey live
        refine Or.inr ⟨fun collision => same ?_, changes.hasEpoch
          ⟨old, mem_of_getElem? holds, isKey, epochs, live, current⟩⟩
        exact position_unique distinct here holds (isPeer.trans (collision.trans isKey.symm))

end Epochs

end PeerManager

/-! ### The rings -/

def announced (ring : List ShardMsg) : List SessionEpochMsg :=
  ring.filterMap fun msg =>
    match msg with
    | .sessionEpoch msg => some msg
    | .packet _ | .handshakeForward _ _ | .arqFeedback _ _ => none

theorem announced_append (first second : List ShardMsg) :
    announced (first ++ second) = announced first ++ announced second :=
  filterMap_append

theorem announced_sessionEpochs (msgs : List SessionEpochMsg) :
    announced (msgs.map .sessionEpoch) = msgs := by
  simp [announced, filterMap_map]

def ShardMsg.Plain : ShardMsg → Prop
  | .packet _ | .sessionEpoch _ => True
  | .handshakeForward _ _ => False
  | .arqFeedback bytes _ => isHandshake bytes = false

namespace Node

variable {env : Primitives} {node : Node env}

theorem foldl_pushRing {ring : List ShardMsg} (room : ring.length < ringCapacity)
    {msgs : List ShardMsg} (single : msgs.length ≤ 1) :
    msgs.foldl pushRing ring = ring ++ msgs := by
  match msgs, single with
  | [], _ => simp
  | [msg], _ => simp [pushRing, room]

/-! ### Following shard 0 -/

/-- What worker zero uses is the last announced to the worker, or the worker uses nothing else. -/
def Follows (node : Node env) (worker : Nat) : Prop :=
  ∀ pubkey credentials, (node.shard 0).HasEpoch pubkey credentials →
    lastFor pubkey (announced (node.ring 0 worker)) = some credentials ∨
      lastFor pubkey (announced (node.ring 0 worker)) = none ∧
        ∀ found, (node.shard worker).HasEpoch pubkey found → found = credentials

structure Replicated (node : Node env) : Prop where
  drained : (node.shard 0).newEpochs = []
  distinct : ∀ shardId, (node.shard shardId).keys.Nodup
  plain : ∀ src dst, 0 < dst → ∀ msg ∈ node.ring src dst, msg.Plain
  silent : ∀ src dst, src ≠ 0 ∨ dst = 0 → announced (node.ring src dst) = []
  follows : ∀ worker, 0 < worker → worker < node.numShards → node.Follows worker

def Queues (node after : Node env) : Prop :=
  ∀ pubkey credentials, (after.shard 0).HasEpoch pubkey credentials →
    ¬(node.shard 0).HasEpoch pubkey credentials →
      ∀ worker, 0 < worker → worker < node.numShards →
        lastFor pubkey (announced (after.ring 0 worker)) = some credentials

def Goes (node after : Node env) : Prop := after.Replicated ∧ node.Queues after

def Room (node : Node env) : Prop :=
  ∀ dst, 0 < dst → dst < node.numShards → (node.ring 0 dst).length < ringCapacity

theorem Replicated.goes {after : Node env} (holds : after.Replicated)
    (same : after.shard 0 = node.shard 0) : node.Goes after :=
  ⟨holds, fun _ _ has hadNot => absurd (same ▸ has) hadNot⟩

section Broadcast

variable (node) (pm : PeerManager env) (written : List (List Byte))

def afterZero : Node env := { node.setShard 0 pm with written := written }.broadcast 0

theorem afterZero_shard_zero : (node.afterZero pm written).shard 0 =
    { pm with newEpochs := [] } := by
  simp [afterZero, broadcast, setShard, PeerManager.drainNewEpochs]

theorem afterZero_shard_of_ne {shardId : Nat} (other : shardId ≠ 0) :
    (node.afterZero pm written).shard shardId = node.shard shardId := by
  simp [afterZero, broadcast, setShard, other]

theorem afterZero_ring (src dst : Nat) : (node.afterZero pm written).ring src dst =
    if src = 0 ∧ 0 < dst ∧ dst < node.numShards then
      (pm.newEpochs.map ShardMsg.sessionEpoch).foldl pushRing (node.ring src dst)
    else node.ring src dst := by
  simp [afterZero, broadcast, setShard, PeerManager.drainNewEpochs]

end Broadcast

theorem Replicated.afterZero (holds : node.Replicated) {pm : PeerManager env}
    (episode : PeerManager.Episode False (node.shard 0) pm) (written : List (List Byte))
    (room : node.Room) : node.Goes (node.afterZero pm written) := by
  obtain ⟨msgs, single, newEpochs, tells⟩ := episode.hasEpoch (holds.distinct 0)
  rw [holds.drained, nil_append] at newEpochs
  have zero := node.afterZero_shard_zero pm written
  have ring : ∀ worker, 0 < worker → worker < node.numShards →
      (node.afterZero pm written).ring 0 worker =
        node.ring 0 worker ++ msgs.map ShardMsg.sessionEpoch := by
    intro worker positive bound
    rw [afterZero_ring, if_pos ⟨rfl, positive, bound⟩, newEpochs,
      foldl_pushRing (room worker positive bound) (by simpa using single)]
  have said : ∀ worker, 0 < worker → worker < node.numShards → ∀ pubkey,
      lastFor pubkey (announced ((node.afterZero pm written).ring 0 worker)) =
        (lastFor pubkey msgs).or (lastFor pubkey (announced (node.ring 0 worker))) := by
    intro worker positive bound pubkey
    rw [ring worker positive bound, announced_append, announced_sessionEpochs, lastFor_append]
  refine ⟨⟨?_, ?_, ?_, ?_, ?_⟩, ?_⟩
  · rw [zero]
  · intro shardId
    by_cases isZero : shardId = 0
    · subst isZero
      rw [zero]
      exact episode.keys_nodup (holds.distinct 0)
    · rw [afterZero_shard_of_ne _ _ _ isZero]
      exact holds.distinct shardId
  · intro src dst positive msg member
    by_cases own : src = 0 ∧ dst < node.numShards
    · obtain ⟨rfl, bound⟩ := own
      rw [ring dst positive bound] at member
      rcases mem_append.mp member with old | new
      · exact holds.plain 0 dst positive msg old
      · obtain ⟨_, _, rfl⟩ := mem_map.mp new
        trivial
    · rw [afterZero_ring, if_neg fun all => own ⟨all.1, all.2.2⟩] at member
      exact holds.plain src dst positive msg member
  · intro src dst other
    rw [afterZero_ring, if_neg (by omega)]
    exact holds.silent src dst other
  · intro worker positive bound pubkey credentials has
    rw [zero] at has
    rw [said worker positive bound, afterZero_shard_of_ne _ _ _ (by omega)]
    rcases tells pubkey credentials has with last | ⟨silent, had⟩
    · exact Or.inl (by rw [last, some_or])
    · rw [silent, none_or]
      exact holds.follows worker positive bound pubkey credentials had
  · intro pubkey credentials has hadNot worker positive bound
    rw [zero] at has
    rw [said worker positive bound]
    rcases tells pubkey credentials has with last | ⟨_, had⟩
    · rw [last, some_or]
    · exact absurd had hadNot

theorem Replicated.setShard (holds : node.Replicated) {worker : Nat} (other : worker ≠ 0)
    {pm : PeerManager env} (changes : PeerManager.Changes False (node.shard worker) pm)
    (written : List (List Byte)) :
    ({ node.setShard worker pm with written := written } : Node env).Replicated := by
  have zero : ({ node.setShard worker pm with written := written } : Node env).shard 0 =
      node.shard 0 := by
    simp [Node.setShard, Ne.symm other]
  refine ⟨by rw [zero]; exact holds.drained, ?_, holds.plain, holds.silent, ?_⟩
  · intro shardId
    by_cases own : shardId = worker
    · subst own
      simpa [Node.setShard] using changes.keys_nodup (holds.distinct shardId)
    · simpa [Node.setShard, own] using holds.distinct shardId
  · intro follower positive bound pubkey credentials has
    rw [zero] at has
    refine (holds.follows follower positive bound pubkey credentials has).imp id
      (And.imp id fun only found hasFound => only found ?_)
    by_cases own : follower = worker
    · subst own
      refine changes.hasEpoch ?_
      simpa [Node.setShard] using hasFound
    · simpa [Node.setShard, own] using hasFound

variable {msg : ShardMsg} {rest : List ShardMsg}

theorem Replicated.rings (holds : node.Replicated) {ring : Nat → Nat → List ShardMsg}
    (plain : ∀ src dst, 0 < dst → ∀ msg ∈ ring src dst, msg.Plain)
    (same : ∀ src dst, announced (ring src dst) = announced (node.ring src dst)) :
    ({ node with ring := ring } : Node env).Replicated := by
  refine ⟨holds.drained, holds.distinct, plain, ?_, ?_⟩
  · intro src dst other
    rw [same]
    exact holds.silent src dst other
  · intro worker positive bound
    unfold Follows
    rw [same]
    exact holds.follows worker positive bound

theorem Replicated.push (holds : node.Replicated) (src dst : Nat) (silent : announced [msg] = [])
    (plain : 0 < dst → msg.Plain) : (node.push src dst msg).Replicated := by
  have ring : ∀ sender receiver, (node.push src dst msg).ring sender receiver =
        node.ring sender receiver ∨
      receiver = dst ∧ (node.push src dst msg).ring sender receiver =
        node.ring sender receiver ++ [msg] := by
    intro sender receiver
    by_cases own : sender = src ∧ receiver = dst
    · obtain ⟨rfl, rfl⟩ := own
      by_cases room : (node.ring sender receiver).length < ringCapacity
      · exact Or.inr ⟨rfl, by simp [Node.push, setRing, pushRing, room]⟩
      · exact Or.inl (by simp [Node.push, setRing, pushRing, room])
    · exact Or.inl (by simp [Node.push, setRing, own])
  have same : ∀ sender receiver, announced ((node.push src dst msg).ring sender receiver) =
      announced (node.ring sender receiver) := by
    intro sender receiver
    rcases ring sender receiver with same | ⟨_, longer⟩
    · rw [same]
    · rw [longer, announced_append, silent, append_nil]
  refine @Replicated.rings env node holds (node.push src dst msg).ring ?_ same
  intro sender receiver positive found member
  rcases ring sender receiver with same | ⟨isDst, longer⟩
  · exact holds.plain sender receiver positive found (same ▸ member)
  · rw [longer] at member
    rcases mem_append.mp member with old | new
    · exact holds.plain sender receiver positive found old
    · rw [mem_singleton.mp new]
      exact plain (isDst ▸ positive)

theorem setRing_ring (src dst : Nat) (rest : List ShardMsg) (sender receiver : Nat) :
    (node.setRing src dst rest).ring sender receiver =
      if sender = src ∧ receiver = dst then rest else node.ring sender receiver := rfl

theorem Replicated.plain_rest (holds : node.Replicated) {src dst : Nat}
    (ring : node.ring src dst = msg :: rest) (sender receiver : Nat) (positive : 0 < receiver) :
    ∀ found ∈ (node.setRing src dst rest).ring sender receiver, found.Plain := by
  intro found member
  rw [setRing_ring] at member
  split at member
  · rename_i own
    obtain ⟨rfl, rfl⟩ := own
    exact holds.plain sender receiver positive found
      (by rw [ring]; exact mem_cons_of_mem _ member)
  · exact holds.plain sender receiver positive found member

theorem Replicated.pop (holds : node.Replicated) {src dst : Nat}
    (ring : node.ring src dst = msg :: rest) (silent : announced [msg] = []) :
    (node.setRing src dst rest).Replicated := by
  have same : ∀ sender receiver, announced ((node.setRing src dst rest).ring sender receiver) =
      announced (node.ring sender receiver) := by
    intro sender receiver
    rw [setRing_ring]
    split
    · rename_i own
      obtain ⟨rfl, rfl⟩ := own
      rw [ring, ← singleton_append, announced_append, silent, nil_append]
    · rfl
  exact holds.rings (holds.plain_rest ring) same

theorem Replicated.install (holds : node.Replicated) {worker : Nat} (positive : 0 < worker)
    {msg : SessionEpochMsg} (ring : node.ring 0 worker = .sessionEpoch msg :: rest) :
    ((node.setRing 0 worker rest).setShard worker
      ((node.shard worker).installEstablishedSession msg.peerPk
        (msg.established worker node.numShards) msg.endpoint)).Replicated := by
  obtain ⟨nodup, tells⟩ := PeerManager.installEstablishedSession_hasEpoch msg worker
    node.numShards (holds.distinct worker)
  have zero : ∀ pm, ((node.setRing 0 worker rest).setShard worker pm).shard 0 = node.shard 0 := by
    intro pm
    simp [Node.setShard, setRing, (show (0 : Nat) ≠ worker by omega)]
  have said : ∀ pubkey, lastFor pubkey (announced (node.ring 0 worker)) =
      (lastFor pubkey (announced rest)).or (lastFor pubkey [msg]) := by
    intro pubkey
    rw [ring, ← singleton_append, announced_append, lastFor_append]
    rfl
  refine ⟨by rw [zero]; exact holds.drained, ?_, holds.plain_rest ring, ?_, ?_⟩
  · intro shardId
    by_cases own : shardId = worker
    · subst own
      simpa [Node.setShard] using nodup
    · simpa [Node.setShard, setRing, own] using holds.distinct shardId
  · intro sender receiver other
    rw [show ((node.setRing 0 worker rest).setShard worker _).ring sender receiver =
      (node.setRing 0 worker rest).ring sender receiver from rfl, setRing_ring, if_neg (by omega)]
    exact holds.silent sender receiver other
  · intro follower isFollower bound pubkey credentials has
    rw [zero] at has
    have before := holds.follows follower isFollower bound pubkey credentials has
    by_cases own : follower = worker
    · subst own
      rw [said] at before
      rw [show ((node.setRing 0 follower rest).setShard follower _).ring 0 follower = rest by
        simp [Node.setShard, setRing]]
      cases later : lastFor pubkey (announced rest) with
      | some last =>
        rw [later, some_or] at before
        exact Or.inl (before.resolve_right fun both => by cases both.1)
      | none =>
        rw [later, none_or] at before
        refine Or.inr ⟨rfl, fun found hasFound => ?_⟩
        have installed := tells pubkey found (by simpa [Node.setShard] using hasFound)
        rcases installed with ⟨about, same⟩ | ⟨other, had⟩
        · have last : lastFor pubkey [msg] = some msg.credentials := by simp [lastFor, about]
          rw [last] at before
          exact same.symm.trans (some.inj (before.resolve_right fun both => by cases both.1))
        · have silent : lastFor pubkey [msg] = none := by simp [lastFor, other]
          rw [silent] at before
          exact (before.resolve_left fun absurd => by cases absurd).2 found had
    · rw [show ((node.setRing 0 worker rest).setShard worker _).ring 0 follower =
          node.ring 0 follower by simp [Node.setShard, setRing, own],
        show ((node.setRing 0 worker rest).setShard worker _).shard follower =
          node.shard follower by simp [Node.setShard, setRing, own]]
      exact before

/-! ### Steps -/

structure Handed where
  shardId : Nat
  src : SocketAddr
  dg : List Byte
  moment : Moment

def handed (node : Node env) : Event → Option Handed
  | .receive shardId src dg moment =>
    if (node.forwards shardId dg).isSome then none else some ⟨shardId, src, dg, moment⟩
  | .inbox from_ shardId moment =>
    match node.ring from_ shardId with
    | .handshakeForward bytes src :: _ | .arqFeedback bytes src :: _ =>
      some ⟨shardId, src, bytes, moment⟩
    | _ => none
  | .tun _ _ _ | .tick _ _ => none

def Steady (node : Node env) (event : Event) : Prop :=
  (∀ handed ∈ node.handed event,
    ¬(node.shard handed.shardId).Confirms
        ((node.shard handed.shardId).carried handed.src handed.dg) handed.moment.nowMs ∧
      (handed.shardId ≠ 0 → ¬((node.shard handed.shardId).rendezvous.isSome ∧
        handed.src = (node.shard handed.shardId).serverAddr))) ∧
    (event.shardId = 0 →
      ∀ dst, 0 < dst → dst < node.numShards → (node.ring 0 dst).length < ringCapacity)

theorem afterZero_of_silent {pm : PeerManager env} (silent : pm.newEpochs = [])
    (written : List (List Byte)) :
    node.afterZero pm written = { node.setShard 0 pm with written := written } := by
  have shard : (node.afterZero pm written).shard = Function.update node.shard 0 pm := by
    funext shardId
    by_cases zero : shardId = 0
    · subst zero
      rw [afterZero_shard_zero, Function.update_self, ← silent]
    · rw [afterZero_shard_of_ne _ _ _ zero, Function.update_of_ne zero]
  have ring : (node.afterZero pm written).ring = node.ring := by
    funext src dst
    rw [afterZero_ring, silent]
    split <;> rfl
  rw [show node.afterZero pm written =
    ⟨node.numShards, (node.afterZero pm written).shard, (node.afterZero pm written).ring, written⟩
      from rfl, shard, ring]
  rfl

theorem Replicated.quiet (holds : node.Replicated) {shardId : Nat} {pm : PeerManager env}
    (changes : PeerManager.Changes False (node.shard shardId) pm)
    (room : shardId = 0 → node.Room) :
    node.Goes (node.setShard shardId pm) ∧
      (node.setShard shardId pm).broadcast shardId = node.setShard shardId pm := by
  by_cases zero : shardId = 0
  · subst zero
    have silent : pm.newEpochs = [] := changes.newEpochs_eq.trans holds.drained
    have same := node.afterZero_of_silent silent node.written
    refine ⟨?_, same⟩
    rw [show node.setShard 0 pm = node.afterZero pm node.written from same.symm]
    exact holds.afterZero changes.episode node.written (room rfl)
  · refine ⟨(holds.setShard zero changes node.written).goes ?_, ?_⟩
    · simp [Node.setShard, Ne.symm zero]
    · simp [broadcast, zero]

theorem Replicated.onUdp (holds : node.Replicated) {shardId : Nat} {src : SocketAddr}
    {dg : List Byte} {moment : Moment}
    (unconfirmed : ¬(node.shard shardId).Confirms ((node.shard shardId).carried src dg)
      moment.nowMs)
    (plain : shardId ≠ 0 → isHandshake dg = false ∧
      ¬((node.shard shardId).rendezvous.isSome ∧ src = (node.shard shardId).serverAddr))
    (room : shardId = 0 → node.Room) : node.Goes (node.onUdp shardId src dg moment) := by
  unfold Node.onUdp
  split
  · exact holds.goes rfl
  · rename_i pm out handled
    by_cases zero : shardId = 0
    · subst zero
      have episode := PeerManager.onUdpDispatch_episode src dg moment handled
      exact holds.afterZero (episode.mono unconfirmed) _ (room rfl)
    · obtain ⟨plain, elsewhere⟩ := plain zero
      have changes := PeerManager.onUdpDispatch_plain_changes plain elsewhere handled
      rw [PeerManager.carried_of_elsewhere elsewhere] at unconfirmed
      rw [broadcast, if_neg zero]
      refine (holds.setShard zero (changes.mono unconfirmed) _).goes ?_
      simp [Node.setShard, Ne.symm zero]

theorem isHandshake_of_control {dg : List Byte} {numShards target : Nat}
    (control : shardForFecControl dg numShards = some target) : isHandshake dg = false := by
  unfold shardForFecControl at control
  split at control
  · cases control
  · split at control
    · rename_i isControl
      simp [isHandshake, isControl, PacketType.toByte]
      decide
    · cases control

section Steps

variable (holds : node.Replicated)
include holds

variable {shardId : Nat}

theorem Replicated.receive {src : SocketAddr} {dg : List Byte} {moment : Moment}
    (steady : node.Steady (.receive shardId src dg moment)) :
    node.Goes (node.receive shardId src dg moment) := by
  obtain ⟨handed, room⟩ := steady
  unfold Node.receive
  split
  · rename_i target forwards
    refine (holds.push shardId target ?_ fun positive => ?_).goes rfl
    · split <;> rfl
    · -- a handshake is passed on to shard 0 only
      have control : isHandshake dg = false := by
        unfold Node.forwards at forwards
        split at forwards
        · cases forwards
          omega
        · exact isHandshake_of_control (mem_filter_iff.mp forwards).1
      rw [control]
      exact control
  · rename_i stays
    have ⟨unconfirmed, elsewhere⟩ := handed ⟨shardId, src, dg, moment⟩
      (by simp [Node.handed, stays])
    refine holds.onUdp unconfirmed (fun other => ⟨?_, elsewhere other⟩) room
    cases kind : isHandshake dg with
    | false => rfl
    | true => simp [Node.forwards, other, kind] at stays

section

variable (inner : List Byte) (moment : Moment) (room : shardId = 0 → node.Room)

include inner moment room

theorem Replicated.sendPacket :
    node.Goes (node.sendPacket shardId inner moment) ∧
      (node.sendPacket shardId inner moment).broadcast shardId =
        node.sendPacket shardId inner moment :=
  holds.quiet (PeerManager.onTunDispatch_changes inner moment) room

theorem Replicated.onTun : node.Goes (node.onTun shardId inner moment) := by
  obtain ⟨kept, same⟩ := holds.sendPacket inner moment room
  unfold Node.onTun
  split
  · exact kept
  · split
    · rw [same]
      exact kept
    · exact Replicated.goes (holds.push shardId 0 rfl fun _ => trivial) rfl

end

theorem Replicated.inbox {src : Nat} {moment : Moment}
    (steady : node.Steady (.inbox src shardId moment)) :
    node.Goes (node.inbox src shardId moment) := by
  obtain ⟨handed, room⟩ := steady
  -- taking a message from a ring to shard 0 leaves the rings from it alone
  have roomAfter : ∀ rest, shardId = 0 → (node.setRing src shardId rest).Room := by
    intro rest zero dst positive bound
    rw [setRing_ring, if_neg (by omega)]
    exact room zero dst positive bound
  unfold Node.inbox
  cases ring : node.ring src shardId with
  | nil => exact holds.goes rfl
  | cons msg rest =>
    cases msg with
    | packet inner =>
      obtain ⟨⟨kept, queues⟩, same⟩ := (holds.pop ring rfl).sendPacket inner moment (roomAfter rest)
      dsimp only
      rw [same]
      exact ⟨kept, queues⟩
    | sessionEpoch msg =>
      have own : src = 0 ∧ 0 < shardId := by
        by_contra other
        have silent := holds.silent src shardId (by omega)
        rw [ring] at silent
        cases silent
      obtain ⟨rfl, positive⟩ := own
      refine (holds.install positive ring).goes ?_
      simp [Node.setShard, setRing, (show (0 : Nat) ≠ shardId by omega)]
    | handshakeForward bytes sender =>
      have zero : shardId = 0 := by
        by_contra other
        exact holds.plain src shardId (by omega) _ (by rw [ring]; exact mem_cons_self)
      have ⟨unconfirmed, _⟩ := handed ⟨shardId, sender, bytes, moment⟩ (by simp [Node.handed, ring])
      exact (holds.pop ring rfl).onUdp unconfirmed (fun other => absurd zero other) (roomAfter rest)
    | arqFeedback bytes sender =>
      have ⟨unconfirmed, elsewhere⟩ :=
        handed ⟨shardId, sender, bytes, moment⟩ (by simp [Node.handed, ring])
      refine (holds.pop ring rfl).onUdp unconfirmed (fun other => ⟨?_, elsewhere other⟩)
        (roomAfter rest)
      exact holds.plain src shardId (by omega) (.arqFeedback bytes sender)
        (by rw [ring]; exact mem_cons_self)

theorem step_replicated {event : Event} (steady : node.Steady event) :
    node.Goes (node.step event) := by
  unfold Node.step
  split
  · cases event with
    | receive shardId src dg moment => exact holds.receive steady
    | tun shardId inner moment => exact holds.onTun inner moment steady.2
    | inbox src shardId moment => exact holds.inbox steady
    | tick shardId moment =>
      obtain ⟨kept, same⟩ := holds.quiet (PeerManager.tickDispatch_changes moment) steady.2
      change node.Goes (node.tick shardId moment)
      rw [show node.tick shardId moment = _ from same]
      exact kept
  · exact holds.goes rfl

end Steps

theorem step_numShards (node : Node env) (event : Event) :
    (node.step event).numShards = node.numShards := by
  have broadcasts : ∀ (node : Node env) shardId,
      (node.broadcast shardId).numShards = node.numShards := by
    intro node shardId
    unfold broadcast
    split <;> rfl
  have handles : ∀ (node : Node env) shardId src dg moment,
      (node.onUdp shardId src dg moment).numShards = node.numShards := by
    intro node shardId src dg moment
    unfold Node.onUdp
    split
    · rfl
    · exact broadcasts _ _
  unfold Node.step
  split
  · cases event with
    | receive =>
      dsimp only [Node.receive]
      split
      · rfl
      · exact handles _ _ _ _ _
    | tun =>
      dsimp only [Node.onTun]
      split
      · rfl
      · split
        · exact broadcasts _ _
        · rfl
    | inbox =>
      dsimp only [Node.inbox]
      split
      · rfl
      · split
        · exact broadcasts _ _
        · rfl
        · exact handles _ _ _ _ _
        · exact handles _ _ _ _ _
    | tick => exact broadcasts _ _
  · rfl

theorem new_replicated (config : PeerManager.Config env) (numShards : Nat)
    (distinct : (config.peers.map Prod.fst).Nodup) : (Node.new config numShards).Replicated := by
  have fresh : ∀ shardId, PeerManager.Changes False
      (PeerManager.empty { config with shardId := shardId, numShards := numShards })
      ((Node.new config numShards).shard shardId) :=
    fun shardId => PeerManager.new_changes _ distinct
  refine ⟨(fresh 0).newEpochs_eq, fun shardId => (fresh shardId).keys_nodup nodup_nil,
    fun _ _ _ _ member => absurd member not_mem_nil, fun _ _ _ => rfl, ?_⟩
  intro worker _ _ pubkey credentials has
  obtain ⟨_, member, _⟩ := (fresh 0).hasEpoch has
  cases member

/-- A node whose steps are all steady. Whenever a step gives shard 0 another current epoch for a
peer, the keys of that epoch are what the ring to every other shard then says last about the peer.
In every state, a shard whose ring says nothing about a peer seals for it under no other epoch than
the one shard 0 has. -/
theorem workers_follow_shard_zero (config : PeerManager.Config env) (numShards : Nat)
    (distinct : (config.peers.map Prod.fst).Nodup) (events : List Event)
    (steady : Machine.Admissible Node.step Steady (Node.new config numShards) events) :
    (∀ earlier event rest, events = earlier ++ event :: rest →
        (Machine.run Node.step (Node.new config numShards) earlier).Queues
          (Machine.run Node.step (Node.new config numShards) (earlier ++ [event]))) ∧
      ∀ worker, 0 < worker → worker < numShards → ∀ pubkey credentials,
        let node := Machine.run Node.step (Node.new config numShards) events
        (node.shard 0).HasEpoch pubkey credentials →
        lastFor pubkey (announced (node.ring 0 worker)) = none →
        ∀ found, (node.shard worker).HasEpoch pubkey found → found = credentials := by
  have reached : ∀ events, Machine.Admissible Node.step Steady (Node.new config numShards) events →
      (Machine.run Node.step (Node.new config numShards) events).Replicated ∧
        (Machine.run Node.step (Node.new config numShards) events).numShards = numShards := by
    intro events
    refine Machine.run_invariant Node.step Steady
      (fun node => node.Replicated ∧ node.numShards = numShards) ?_ _ _
      ⟨new_replicated config numShards distinct, rfl⟩
    intro node event holds allowed
    exact ⟨(step_replicated holds.1 allowed).1, (step_numShards node event).trans holds.2⟩
  constructor
  · rintro earlier event rest rfl
    obtain ⟨before, allowed, _⟩ := (Machine.admissible_append _ _ _ _ _).mp steady
    rw [Machine.run_append]
    exact (step_replicated (reached earlier before).1 allowed).2
  · intro worker positive bound pubkey credentials node has said found hasFound
    obtain ⟨holds, same⟩ := reached events steady
    rcases holds.follows worker positive (by rwa [same]) pubkey credentials has
      with last | ⟨_, only⟩
    · rw [said] at last
      cases last
    · exact only found hasFound

section Executions

open Transparent

def currentCredentials (peer : Peer env) : Option Credentials :=
  match peer.state with
  | .established epochs => some epochs.current.credentials
  | _ => none

theorem currentCredentials_eq_some {peer : Peer env} {credentials : Credentials} :
    currentCredentials peer = some credentials ↔
      ∃ epochs, peer.state = .established epochs ∧ epochs.current.credentials = credentials := by
  unfold currentCredentials
  split
  · rename_i epochs live
    simp [live]
  · rename_i other
    simp only [reduceCtorEq, false_iff]
    rintro ⟨epochs, live, _⟩
    exact other epochs live

instance (pm : PeerManager env) (pubkey : Key) (credentials : Credentials) :
    Decidable (pm.HasEpoch pubkey credentials) :=
  decidable_of_iff
    (∃ peer ∈ pm.peers, peer.pubkey = pubkey ∧ currentCredentials peer = some credentials)
    (by simp only [currentCredentials_eq_some, PeerManager.HasEpoch])

theorem not_confirms_of_no_session {pm : PeerManager env}
    (noSession : ∀ peer ∈ pm.peers, currentCredentials peer = none) (dg : List Byte)
    (nowMs : Nat) : ¬pm.Confirms dg nowMs := by
  rintro ⟨peer, member, epochs, live, _⟩
  have inSession := currentCredentials_eq_some.mpr ⟨epochs, live, rfl⟩
  rw [noSession peer member] at inSession
  cases inSession

def coldStart : List Event :=
  [.receive 0 ⟨1, 1⟩ (init 1 1 10 []) (moment 0 0 0 1), .inbox 0 1 (moment 0 0 0 1)]

theorem coldStart_followed :
    let node := Machine.run Node.step (Node.new (config 2 [1] none 0 2) 2) coldStart
    let credentials := (Transparent.dataPlane .bulk false 1 1200).credentials
    ((node.shard 0).HasEpoch (key 1) credentials ∧ (node.shard 1).HasEpoch (key 1) credentials) ∧
      ∀ found, (node.shard 1).HasEpoch (key 1) found → found = credentials := by
  have steady : Machine.Admissible Node.step Steady (Node.new (config 2 [1] none 0 2) 2)
      coldStart := by
    refine ⟨⟨?_, fun _ dst positive bound => ?_⟩, ⟨?_, fun zero => by cases zero⟩, trivial⟩
    · intro handed member
      obtain rfl : (⟨0, ⟨1, 1⟩, init 1 1 10 [], moment 0 0 0 1⟩ : Handed) = handed :=
        some.inj member
      exact ⟨not_confirms_of_no_session (by decide) _ _, fun other => absurd rfl other⟩
    · exact show 0 < ringCapacity by decide
    · intro handed member
      cases member
  refine ⟨by decide +kernel, fun found hasFound => ?_⟩
  exact (workers_follow_shard_zero _ 2 (by decide) coldStart steady).2 1 (by decide) (by decide)
    (key 1) _ (by decide +kernel) (by decide +kernel) found hasFound

/-- Shard 0 answers a rekey and sees the new epoch used. It then seals under the second session,
has nothing queued for shard 1, and shard 1 still seals under the first. -/
theorem confirmed_rekey_not_announced :
    let before := Machine.run Node.step (Node.new (config 2 [1] none 0 2) 2)
      (coldStart ++ [.receive 0 ⟨1, 1⟩ (init 1 2 20 []) (moment 1 0 0 2)])
    let after := before.step (.receive 0 ⟨1, 1⟩ (firstData 2 []) (moment 2 0 0 3))
    let first := (Transparent.dataPlane .bulk false 1 1200).credentials
    let second := (Transparent.dataPlane .bulk false 2 1200).credentials
    first ≠ second ∧ (before.shard 0).HasEpoch (key 1) first ∧
      (after.shard 0).HasEpoch (key 1) second ∧ (after.ring 0 1).length = 0 ∧
      (after.shard 1).HasEpoch (key 1) first := by
  decide +kernel

end Executions

end Node

end Yip
