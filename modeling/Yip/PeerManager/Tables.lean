/-
This file is about the tables of the peer manager.
-/

import Yip.PeerManager.Changes

namespace Yip

open Crypto Transport List Option

namespace PeerManager

variable {env : Primitives}

def keys (pm : PeerManager env) : List Key := pm.peers.map Peer.pubkey

/-- No two keys share an address or a node. -/
def Collisionless (env : Primitives) (keys : List Key) : Prop :=
  ∀ first ∈ keys, ∀ second ∈ keys,
    env.nodeAddr first = env.nodeAddr second ∨ env.nodeId first = env.nodeId second →
      first = second

/-- The tables lead to the peers they should, and a tag only to a peer that held it. -/
structure Consistent (held : Key → Nat → Prop) (pm : PeerManager env) : Prop where
  byAddr : IndexTable.Exact Peer.addr pm.peers pm.byAddr
  byNode : IndexTable.Exact Peer.node pm.peers pm.byNode
  byTag : ∀ tag position, pm.byTag tag = some position →
    ∃ peer, pm.peers[position]? = some peer ∧ held peer.pubkey tag

theorem Consistent.mono {few many : Key → Nat → Prop} {pm : PeerManager env}
    (holds : Consistent few pm) (more : ∀ pubkey tag, few pubkey tag → many pubkey tag) :
    Consistent many pm := by
  refine ⟨holds.byAddr, holds.byNode, fun tag position entry => ?_⟩
  obtain ⟨peer, found, tagged⟩ := holds.byTag tag position entry
  exact ⟨peer, found, more _ _ tagged⟩

/-! ### What a change preserves -/

section Changes

variable {mayConfirm : Prop} {held : Key → Nat → Prop} {pm after : PeerManager env}

theorem keys_modify {peers : List (Peer env)} {idx : Nat} {f : Peer env → Peer env}
    (pubkey : ∀ peer, peers[idx]? = some peer → (f peer).pubkey = peer.pubkey) :
    (peers.modify idx f).map Peer.pubkey = peers.map Peer.pubkey := by
  apply ext_getElem?
  intro position
  simp only [getElem?_map, getElem?_modify, Option.map_eq_map, Option.map_map]
  cases holds : peers[position]? with
  | none => rfl
  | some peer =>
    by_cases here : idx = position
    · simp [here, pubkey peer (here ▸ holds)]
    · simp [here]

theorem Change.keys_grow (change : Change mayConfirm pm after) : pm.keys <+: after.keys := by
  cases change with
  | adjust idx f peers _ _ _ _ keeps =>
    unfold keys
    rw [peers, keys_modify fun peer holds => (keeps peer holds).1]
  | push peer _ _ pushed =>
    subst pushed
    exact ⟨[peer.pubkey], by simp [keys, pushPeer]⟩

theorem Announces.keys_eq (announces : pm.Announces after) : after.keys = pm.keys := by
  obtain ⟨idx, f, peer, _, holds, peers, _, _, _, pubkey⟩ := announces
  unfold keys
  rw [peers, keys_modify]
  intro found same
  cases holds.symm.trans same
  exact pubkey

theorem peer_kept (longer : pm.keys <+: after.keys) {position : Nat} {peer : Peer env}
    (holds : pm.peers[position]? = some peer) :
    ∃ kept, after.peers[position]? = some kept ∧ kept.pubkey = peer.pubkey := by
  obtain ⟨rest, same⟩ := longer
  have bound : position < pm.keys.length := by
    simpa [keys] using (List.getElem?_eq_some_iff.mp holds).1
  have key : after.keys[position]? = some peer.pubkey := by
    rw [← same, getElem?_append_left bound]
    simp [keys, holds]
  simpa [keys] using key

theorem Collisionless.mono {few many : List Key} (collisionless : Collisionless env many)
    (subset : few ⊆ many) : Collisionless env few :=
  fun first here second there => collisionless first (subset here) second (subset there)

theorem pushPeer_consistent {peer : Peer env} (holds : Consistent held pm)
    (fresh : ∀ known ∈ pm.peers, known.pubkey ≠ peer.pubkey)
    (collisionless : Collisionless env (pm.pushPeer peer).keys) :
    Consistent held (pm.pushPeer peer) := by
  have apart : ∀ known ∈ pm.peers,
      ¬(env.nodeAddr known.pubkey = env.nodeAddr peer.pubkey ∨
        env.nodeId known.pubkey = env.nodeId peer.pubkey) := by
    intro known member collision
    refine fresh known member (collisionless _ ?_ _ ?_ collision)
    · exact mem_map_of_mem (mem_append_left _ member)
    · exact mem_map_of_mem (mem_append_right _ (mem_singleton_self peer))
  refine ⟨?_, ?_, ?_⟩
  · exact holds.byAddr.push fun known member same => apart known member (Or.inl same)
  · exact holds.byNode.push fun known member same => apart known member (Or.inr same)
  · intro tag position entry
    obtain ⟨known, found, tagged⟩ := holds.byTag tag position entry
    refine ⟨known, ?_, tagged⟩
    rw [pushPeer, getElem?_append_left (List.getElem?_eq_some_iff.mp found).1, found]

theorem Change.consistent (change : Change mayConfirm pm after)
    (collisionless : Collisionless env after.keys) (holds : Consistent held pm) :
    Consistent held after := by
  have longer := change.keys_grow
  cases change with
  | adjust idx f peers byAddr byNode _ byTag keeps =>
    have addr : ∀ peer, pm.peers[idx]? = some peer → (f peer).addr = peer.addr :=
      fun peer found => congrArg env.nodeAddr (keeps peer found).1
    have node : ∀ peer, pm.peers[idx]? = some peer → (f peer).node = peer.node :=
      fun peer found => congrArg env.nodeId (keeps peer found).1
    refine ⟨?_, ?_, ?_⟩
    · rw [peers, byAddr]
      exact holds.byAddr.modify addr
    · rw [peers, byNode]
      exact holds.byNode.modify node
    · intro tag position entry
      obtain ⟨peer, found, tagged⟩ := holds.byTag tag position (byTag tag position entry)
      obtain ⟨now, there, same⟩ := peer_kept longer found
      exact ⟨now, there, same ▸ tagged⟩
  | push peer _ fresh pushed =>
    subst pushed
    exact pushPeer_consistent holds fresh collisionless

theorem Changes.consistent (changes : Changes mayConfirm pm after)
    (collisionless : Collisionless env after.keys) (holds : Consistent held pm) :
    Consistent held after := by
  induction changes with
  | refl => exact holds
  | tail _ change ih =>
    exact change.consistent collisionless
      (ih (collisionless.mono change.keys_grow.subset))

theorem Announces.consistent (announces : pm.Announces after)
    (live : ∀ peer ∈ after.peers, ∀ tag ∈ liveTags peer.state, held peer.pubkey tag)
    (holds : Consistent held pm) : Consistent held after := by
  have longer : pm.keys <+: after.keys := announces.keys_eq ▸ prefix_rfl
  obtain ⟨idx, f, peer, epochs, here, peers, byAddr, byNode, _, pubkey, state, _, byTag⟩ :=
    announces
  have only : ∀ found, pm.peers[idx]? = some found → (f found).pubkey = found.pubkey := by
    intro found same
    cases here.symm.trans same
    exact pubkey
  refine ⟨?_, ?_, ?_⟩
  · rw [peers, byAddr]
    exact holds.byAddr.modify fun found same => congrArg env.nodeAddr (only found same)
  · rw [peers, byNode]
    exact holds.byNode.modify fun found same => congrArg env.nodeId (only found same)
  · intro tag position entry
    rcases byTag tag position entry with old | ⟨rfl, rfl⟩
    · obtain ⟨peer, found, tagged⟩ := holds.byTag tag position old
      obtain ⟨now, there, same⟩ := peer_kept longer found
      exact ⟨now, there, same ▸ tagged⟩
    · have there : after.peers[position]? = some (f peer) := by
        simp [peers, here]
      refine ⟨f peer, there, live _ (mem_of_getElem? there) _ ?_⟩
      rw [state]
      exact mem_cons_self

theorem Episode.consistent (episode : Episode mayConfirm pm after)
    (collisionless : Collisionless env after.keys)
    (live : ∀ peer ∈ after.peers, ∀ tag ∈ liveTags peer.state, held peer.pubkey tag)
    (holds : Consistent held pm) : Consistent held after := by
  obtain ⟨quiet, changes, rfl | announces⟩ := episode
  · exact changes.consistent collisionless holds
  · exact announces.consistent live
      (changes.consistent (announces.keys_eq ▸ collisionless) holds)

end Changes

/-! ### Removal -/

/-- Every tag that leads to the peer is one of its live ones. -/
def Removable (pm : PeerManager env) (pubkey : Key) : Prop :=
  ∀ idx, pm.byNode (env.nodeId pubkey) = some idx →
    ∀ tag, pm.byTag tag = some idx →
      tag ∈ ((pm.peers[idx]?).map fun peer => liveTags peer.state).getD []

section Removal

variable {held : Key → Nat → Prop} {pm after : PeerManager env} {pubkey : Key}

theorem dropSession_byTag {idx : Nat} {peer : Peer env} (holds : pm.peers[idx]? = some peer)
    (tag : Nat) : (pm.dropSession idx).byTag tag =
      if tag ∈ liveTags peer.state then none else pm.byTag tag := by
  simp [dropSession, holds, removeTags]

theorem dropSession_keys (idx : Nat) : (pm.dropSession idx).keys = pm.keys := by
  unfold dropSession
  split
  · rfl
  · exact keys_modify fun _ _ => rfl

theorem removePeer_consistent (holds : Consistent held pm)
    (collisionless : Collisionless env (pubkey :: pm.keys)) (removable : pm.Removable pubkey)
    (removed : pm.removePeer pubkey = .ok after) : Consistent held after := by
  unfold removePeer at removed
  split at removed
  · cases removed
  · rename_i idx found
    cases removed
    obtain ⟨peer, here, isNode⟩ := (holds.byNode _ _).mp found
    have isKey : peer.pubkey = pubkey := by
      refine collisionless _ ?_ _ mem_cons_self (Or.inr isNode)
      exact mem_cons_of_mem _ (mem_map_of_mem (mem_of_getElem? here))
    have drop : Changes False pm (pm.dropSession idx) := dropSession_changes idx
    have dropped : Consistent held (pm.dropSession idx) := by
      refine drop.consistent ?_ holds
      rw [dropSession_keys]
      exact collisionless.mono (subset_cons_self pubkey _)
    obtain ⟨gone, there, same⟩ : ∃ gone, (pm.dropSession idx).peers[idx]? = some gone ∧
        gone.pubkey = pubkey := by
      have key : (pm.dropSession idx).keys[idx]? = some pubkey := by
        rw [dropSession_keys]
        simp [keys, here, isKey]
      simpa [keys] using key
    subst same
    refine ⟨dropped.byAddr.remove there, dropped.byNode.remove there, ?_⟩
    intro tag position entry
    obtain ⟨old, old_entry, rfl⟩ := map_eq_some_iff.mp entry
    have elsewhere : old ≠ idx := by
      rintro rfl
      rw [dropSession_byTag here] at old_entry
      split at old_entry
      · cases old_entry
      · rename_i stale
        exact stale (by simpa [here] using removable old found tag old_entry)
    obtain ⟨kept, holds, tagged⟩ := dropped.byTag tag old old_entry
    exact ⟨kept, (IndexTable.getElem?_eraseIdx_shiftDown elsewhere).trans holds, tagged⟩

end Removal

/-! ### Runs -/

def Event.named : Event → List Key
  | .removePeer pubkey => [pubkey]
  | _ => []

/-- The event meets no collision, and removes only peers whose tags are live. -/
def Orderly (pm : PeerManager env) (event : Event) : Prop :=
  Collisionless env (event.named ++ pm.keys ++ (pm.step event).keys) ∧
    ∀ pubkey ∈ event.named, pm.Removable pubkey

section Runs

variable {held : Key → Nat → Prop}

theorem step_consistent {pm : PeerManager env} {event : Event} (orderly : pm.Orderly event)
    (live : ∀ peer ∈ (pm.step event).peers, ∀ tag ∈ liveTags peer.state, held peer.pubkey tag)
    (holds : Consistent held pm) : Consistent held (pm.step event) := by
  have collisionless : Collisionless env (pm.step event).keys :=
    orderly.1.mono (subset_append_right _ _)
  cases event with
  | udp src dg moment =>
    cases handled : pm.onUdpDispatch src dg moment with
    | none =>
      simp only [step, handled, map_none, getD_none]
      exact holds
    | some result =>
      simp only [step, handled, map_some, getD_some] at collisionless live ⊢
      exact (onUdpDispatch_episode src dg moment handled).consistent collisionless live holds
  | tun inner moment =>
    have changes : Changes False pm (pm.onTunDispatch inner moment).1 := onTunDispatch_changes ..
    exact changes.consistent collisionless holds
  | tick moment =>
    have changes : Changes False pm (pm.tickDispatch moment).1 := tickDispatch_changes moment
    exact changes.consistent collisionless holds
  | admitMember pubkey endpoints nowMs =>
    have changes : Changes False pm (pm.admitMember pubkey endpoints nowMs) :=
      admitMember_changes ..
    exact changes.consistent collisionless holds
  | addPeer pubkey endpoint =>
    cases added : pm.addPeer pubkey endpoint with
    | error message => simpa [step, added, Except.toOption] using holds
    | ok after =>
      simp only [step, added, Except.toOption, getD_some] at collisionless ⊢
      unfold addPeer at added
      split at added
      · cases added
      · rename_i unknown
        cases added
        refine pushPeer_consistent holds (fun known member same => unknown ?_) collisionless
        obtain ⟨position, found⟩ := mem_iff_getElem?.mp member
        rw [show env.nodeId pubkey = known.node from congrArg env.nodeId same.symm,
          holds.byNode.lookup found, isSome_some]
  | removePeer pubkey =>
    cases removed : pm.removePeer pubkey with
    | error message => simpa [step, removed, Except.toOption] using holds
    | ok after =>
      simp only [step, removed, Except.toOption, getD_some]
      refine removePeer_consistent holds (orderly.1.mono ?_)
        (orderly.2 pubkey mem_cons_self) removed
      exact subset_append_left _ _
  | drainNewEpochs => exact { holds with }

end Runs

/-- The peer had this tag at some point of the run. -/
def HeldIn (start : PeerManager env) (events : List Event) (pubkey : Key) (tag : Nat) : Prop :=
  ∃ earlier, earlier <+: events ∧ ∃ peer ∈ (Machine.run step start earlier).peers,
    peer.pubkey = pubkey ∧ tag ∈ liveTags peer.state

theorem empty_consistent (held : Key → Nat → Prop) (config : Config env) :
    Consistent held (empty config) :=
  ⟨IndexTable.exact_nil, IndexTable.exact_nil, fun _ _ entry => by cases entry⟩

theorem configured_changes (peers : List (Key × Option SocketAddr)) {pm : PeerManager env}
    (distinct : (pm.keys ++ peers.map Prod.fst).Nodup) :
    Changes False pm (peers.foldl configure pm) := by
  induction peers generalizing pm with
  | nil => exact .refl
  | cons peer rest ih =>
    have entered : (pm.configure peer).keys = pm.keys ++ [peer.1] := by
      simp [configure, pushPeer, keys, Peer.new]
    have pushed : Changes False pm (pm.configure peer) := by
      refine pushPeer_changes rfl fun known member same => ?_
      exact (disjoint_of_nodup_append distinct) (mem_map_of_mem member)
        (by simp [same, Peer.new])
    exact pushed.trans (ih (by rw [entered]; simpa using distinct))

theorem new_changes (config : Config env) (distinct : (config.peers.map Prod.fst).Nodup) :
    Changes False (empty config) (new config) := by
  have admits : ∀ (roots : List (Key × SocketAddr)) (pm : PeerManager env), Changes False pm
      (roots.foldl (fun pm root => pm.admitMember root.1 [root.2] 0) pm) := by
    intro roots
    induction roots with
    | nil => exact fun _ => .refl
    | cons root rest ih =>
      exact fun pm => (admitMember_changes ..).trans (ih _)
  exact (configured_changes config.peers (by simpa [keys, empty] using distinct)).trans (admits _ _)

/-- The tables in every state of every run. Each address and each node id of a peer leads to its
position and to nothing else, and a tag leads to the position of a peer that holds the tag in a
live epoch or has done so in an earlier state of the run. -/
theorem tables_consistent (config : Config env) (distinct : (config.peers.map Prod.fst).Nodup)
    (collisionless : Collisionless env (new config).keys) (events : List Event)
    (orderly : Machine.Admissible step Orderly (new config) events) :
    Consistent (HeldIn (new config) events) (Machine.run step (new config) events) := by
  induction events using reverseRecOn with
  | nil => exact (new_changes config distinct).consistent collisionless (empty_consistent ..)
  | append_singleton events event ih =>
    obtain ⟨earlier, last⟩ := (Machine.admissible_append step Orderly _ _ _).mp orderly
    have longer : ∀ pubkey tag, HeldIn (new config) events pubkey tag →
        HeldIn (new config) (events ++ [event]) pubkey tag := by
      rintro pubkey tag ⟨before, shorter, held⟩
      exact ⟨before, shorter.trans (prefix_append _ _), held⟩
    have live : ∀ peer ∈ (Machine.run step (new config) (events ++ [event])).peers,
        ∀ tag ∈ liveTags peer.state,
          HeldIn (new config) (events ++ [event]) peer.pubkey tag :=
      fun peer member tag held => ⟨_, prefix_rfl, peer, member, rfl, held⟩
    rw [Machine.run_append] at live ⊢
    exact step_consistent last.1 live ((ih earlier).mono longer)

section Executions

open Transparent

instance (keys : List Key) : Decidable (Collisionless env keys) := by
  unfold Collisionless
  infer_instance

def confirmedRekey : List Event :=
  [.udp ⟨1, 1⟩ (init 1 1 10 []) (moment 0 0 0 1),
    .udp ⟨1, 1⟩ (init 1 2 20 []) (moment 1 0 0 2),
    .udp ⟨1, 1⟩ (firstData 2 []) (moment 2 0 0 3),
    .tick (moment 20000 0 0 4)]

theorem rekeyed_tables_consistent :
    Consistent (HeldIn (manager 2 [1] none 0 1) confirmedRekey)
      (Machine.run step (manager 2 [1] none 0 1) confirmedRekey) :=
  tables_consistent _ (by decide) (by decide +kernel) confirmedRekey
    ⟨⟨by decide +kernel, fun _ named => by cases named⟩,
      ⟨by decide +kernel, fun _ named => by cases named⟩,
      ⟨by decide +kernel, fun _ named => by cases named⟩,
      ⟨by decide +kernel, fun _ named => by cases named⟩, trivial⟩

/-- After a rekey as responder the tag of the first session still leads to the peer, which holds
only the second one by now, and the tag of the second session leads nowhere. When the peer is
removed the entry stays and leads behind the end of the peers, and a datagram with that tag
panics. -/
theorem stale_tag_survives :
    let pm := Machine.run step (manager 2 [1] none 0 1) confirmedRekey
    let first := (Transparent.dataPlane .bulk true 1 1200).connTag
    let second := (Transparent.dataPlane .bulk true 2 1200).connTag
    (pm.byTag first = some 0 ∧ pm.byTag second = none ∧
        (pm.peers.map fun peer => liveTags peer.state) = [[second]]) ∧
      (pm.step (.removePeer (key 1))).peers.length = 0 ∧
      (pm.step (.removePeer (key 1))).byTag first = some 0 ∧
      ((pm.step (.removePeer (key 1))).onUdpDispatch ⟨1, 1⟩
        (PacketType.data.toByte :: toBeBytes 8 first) (moment 20001 0 0 5)).isSome = false := by
  decide +kernel

end Executions

end PeerManager

end Yip
