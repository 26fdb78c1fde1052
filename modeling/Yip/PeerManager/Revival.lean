/-
This file is about bringing a peer up again that has no session.
-/

import Yip.PeerManager.Traversal

namespace Yip

open Crypto Transport

/-! ### Paths -/

def PathAction.Attempts : PathAction → Prop
  | probe _ | needLookup | relay => True
  | idle | failed => False

namespace PathState

/-- The search can still lead to a session. -/
structure LeadsOn (path : PathState) : Prop where
  uncommitted : path.isCommitted = false
  connected : path.hasRendezvous = true
  direct : path.isRelayOnly = false
  stage : path.stage ≠ .failed

theorem punchAction_attempts (path : PathState) : path.punchAction.Attempts := by
  unfold punchAction
  split <;> trivial

variable {path : PathState}

section

variable (leads : path.LeadsOn)

include leads

theorem LeadsOn.enter {stage : PathStage} (goes : stage ≠ .failed) (nowMs : Nat) :
    (path.enter stage nowMs).LeadsOn :=
  ⟨leads.uncommitted, leads.connected, leads.direct, goes⟩

theorem LeadsOn.leaveDirect (nowMs : Nat) :
    (path.leaveDirect nowMs).1.LeadsOn ∧ (path.leaveDirect nowMs).2.Attempts := by
  unfold PathState.leaveDirect
  rw [if_pos leads.connected]
  exact ⟨leads.enter (by decide) nowMs, punchAction_attempts _⟩

theorem LeadsOn.advance (nowMs : Nat) :
    (path.advance nowMs).1.LeadsOn ∧ (path.advance nowMs).2.Attempts := by
  unfold PathState.advance
  simp only [leads.direct, leads.uncommitted, Bool.false_eq_true, if_false]
  split
  · split
    · split
      · exact ⟨leads, trivial⟩
      · exact leads.leaveDirect nowMs
    · exact leads.leaveDirect nowMs
  · split
    · exact ⟨leads.enter (by decide) nowMs, trivial⟩
    · exact ⟨leads, path.punchAction_attempts⟩
  · exact ⟨leads, trivial⟩
  · rename_i failed
    exact absurd failed leads.stage

theorem LeadsOn.onPeerCandidate (addr : SocketAddr) (nowMs : Nat) :
    (path.onPeerCandidate addr nowMs).LeadsOn := by
  have learned : ({ path with candidate := some addr } : PathState).LeadsOn :=
    { leads with }
  unfold PathState.onPeerCandidate
  dsimp only
  split
  · exact learned.enter (by decide) nowMs
  all_goals exact learned

variable (endpoints : List SocketAddr)

theorem LeadsOn.foldl_onPeerCandidate (nowMs : Nat) :
    (endpoints.foldl (fun path addr => path.onPeerCandidate addr nowMs) path).LeadsOn := by
  induction endpoints generalizing path with
  | nil => exact leads
  | cons addr rest ih =>
    exact ih (leads.onPeerCandidate addr nowMs)

theorem LeadsOn.foldl_onDirectAddr : (endpoints.foldl PathState.onDirectAddr path).LeadsOn := by
  induction endpoints generalizing path with
  | nil => exact leads
  | cons addr rest ih =>
    exact ih { leads with }

end

end PathState

namespace PeerManager

variable {env : Primitives} {occasion : Warrant} {pm after : PeerManager env}

/-! ### The invariant -/

/-- Every peer without a session is still being looked for. -/
structure Revivable (pm : PeerManager env) : Prop where
  connected : pm.setting.rendezvous.isSome = true
  direct : pm.setting.relayOnly = false
  paths : ∀ (idx : Nat) (peer : Peer env), pm.peers[idx]? = some peer →
    peer.state.isEstablished = false → peer.path.LeadsOn

theorem Revivable.startPath (holds : pm.Revivable) (endpoints : List SocketAddr) (nowMs : Nat) :
    (pm.startPath endpoints nowMs).LeadsOn := by
  have direct : pm.isRelayOnly = false := holds.direct
  have connected : pm.rendezvous.isSome = true := holds.connected
  unfold PeerManager.startPath
  simp only [direct, Bool.false_eq_true, if_false, connected]
  refine PathState.LeadsOn.foldl_onDirectAddr ⟨rfl, rfl, rfl, ?_⟩ endpoints
  unfold PathState.new
  dsimp only
  split <;> decide

theorem Revivable.of_peers (holds : pm.Revivable) (setting : after.setting = pm.setting)
    (paths : ∀ (idx : Nat) (peer : Peer env), after.peers[idx]? = some peer →
      peer.state.isEstablished = false → peer.path.LeadsOn) : after.Revivable :=
  ⟨setting ▸ holds.connected, setting ▸ holds.direct, paths⟩

theorem relearnEndpoint_path (peer : Peer env) (src : SocketAddr) :
    (peer.relearnEndpoint src).state.isEstablished = peer.state.isEstablished ∧
      (peer.relearnEndpoint src).path = peer.path := by
  rcases peer.relearnEndpoint_cases src with same | ⟨addr, moved⟩
  · rw [same]
    exact ⟨rfl, rfl⟩
  · rw [moved]
    refine ⟨?_, rfl⟩
    unfold Peer.moveTo
    cases peer.state <;> rfl

theorem Touch.leadsOn {peer touched : Peer env} (touch : Touch occasion pm peer touched)
    (leads : peer.state.isEstablished = false → peer.path.LeadsOn)
    (waiting : touched.state.isEstablished = false) : touched.path.LeadsOn := by
  cases touch with
  | begins _ idle => exact leads (by rw [idle]; rfl)
  | asks | flags | detours | renews | buffers => exact leads waiting
  | advances nowMs => exact ((leads waiting).advance nowMs).1
  | learns endpoints nowMs => exact (leads waiting).foldl_onPeerCandidate endpoints nowMs
  | installs | concludes | opens | seals | clocks => cases waiting
  | reverts _ _ _ live | escalates _ _ live | retargets _ _ live | resends _ _ _ live
  | expires _ _ live =>
    exact leads (by rw [live]; rfl)
  | roams _ src =>
    obtain ⟨state, path⟩ := relearnEndpoint_path peer src
    exact path ▸ leads (state ▸ waiting)

theorem Revivable.pushPeer (holds : pm.Revivable) {peer : Peer env} (leads : peer.path.LeadsOn) :
    (pm.pushPeer peer).Revivable := by
  refine holds.of_peers rfl fun idx found there waiting => ?_
  rcases pm.getElem?_pushPeer peer idx with kept | ⟨_, added⟩
  · exact holds.paths idx found (kept ▸ there) waiting
  · cases added.symm.trans there
    exact leads

theorem Quiet.revivable (quiet : Quiet occasion pm after) (spares : ∀ idx, ¬occasion.drop idx)
    (holds : pm.Revivable) : after.Revivable := by
  refine holds.of_peers quiet.setting_eq fun idx => ?_
  have paths := holds.paths idx
  revert paths
  refine quiet.seat idx (fun _ => id) ?_ ?_ fun given => absurd given (spares idx)
  · rintro peer _ touch paths _ ⟨⟩ waiting
    exact touch.leadsOn (paths peer rfl) waiting
  · rintro _ endpoints nowMs _ _ ⟨⟩ _
    exact holds.startPath endpoints nowMs

theorem Moves.revivable (moves : Moves occasion pm after) (spares : ∀ idx, ¬occasion.drop idx)
    (holds : pm.Revivable) : after.Revivable := by
  induction moves with
  | refl => exact holds
  | tail _ quiet ih => exact quiet.revivable spares ih

theorem Begun.established {peer begun : Peer env} (start : Begun occasion pm peer begun) :
    begun.state.isEstablished = true := by
  cases start <;> rfl

theorem Starts.revivable (starts : Starts occasion pm after) (holds : pm.Revivable) :
    after.Revivable := by
  refine holds.of_peers starts.setting_eq fun idx => ?_
  have paths := holds.paths idx
  revert paths
  refine starts.seat idx (fun _ => id) ?_
  rintro _ _ start _ _ ⟨⟩ waiting
  rw [start.established] at waiting
  cases waiting

theorem Course.revivable (course : Course occasion pm after) (spares : ∀ idx, ¬occasion.drop idx)
    (holds : pm.Revivable) : after.Revivable := by
  obtain ⟨quiet, moves, rfl | starts⟩ := course
  · exact moves.revivable spares holds
  · exact starts.revivable (moves.revivable spares holds)

/-! ### Runs -/

/-- The event drops no session: it refuses no Init and sweeps no certificate. -/
def Spares (pm : PeerManager env) : ShardEvent → Prop
  | .own (.udp src dg moment) => ∀ idx init, pm.readInit (pm.carried src dg) moment = some init →
    ¬pm.Refuses init moment.nowSecs idx
  | .own (.tick moment) => ∀ idx, ¬pm.Sweeps moment idx
  | _ => True

theorem eventOccasion_spares {event : Event} (spares : pm.Spares (.own event)) (idx : Nat) :
    ¬(pm.eventOccasion event).drop idx := by
  cases event with
  | udp src dg moment =>
    rintro ⟨init, read, refuses⟩
    exact spares idx init read refuses
  | tick moment => exact spares idx
  | tun | addPeer | admitMember | removePeer | drainNewEpochs => exact id

theorem removed_cases {idx position : Nat} {peer : Peer env}
    (there : ((pm.dropSession idx).peers.eraseIdx idx)[position]? = some peer) :
    ∃ old : Nat, pm.peers[old]? = some peer := by
  obtain ⟨old, apart, rfl⟩ := IndexTable.exists_shiftDown idx position
  rw [IndexTable.getElem?_eraseIdx_shiftDown apart, dropSession_getElem?_of_ne pm apart] at there
  exact ⟨old, there⟩

theorem Stepped.revivable {event : ShardEvent} (stepped : pm.Stepped event after)
    (spares : pm.Spares event) (holds : pm.Revivable) : after.Revivable := by
  cases stepped with
  | course event after kept course => exact course.revivable (eventOccasion_spares spares) holds
  | added pubkey endpoint => exact holds.pushPeer (holds.startPath _ 0)
  | removed pubkey idx after found setting peers =>
    refine holds.of_peers setting fun position peer there waiting => ?_
    obtain ⟨old, had⟩ := removed_cases (peers ▸ there)
    exact holds.paths old peer had waiting
  | drained => exact holds.of_peers rfl holds.paths
  | installed peerPk established endpoint admitted after idx addr moves setting peers =>
    have admits : admitted.Revivable := moves.revivable (fun _ => id) holds
    refine holds.of_peers setting fun position peer there waiting => ?_
    have updated : (admitted.modifyPeer idx _).peers[position]? = some peer := peers ▸ there
    obtain ⟨old, had, rfl | ⟨rfl, rfl⟩⟩ := modifyPeer_cases updated
    · exact admits.paths position peer had waiting
    · cases waiting
  | unknown _ _ _ after moves => exact moves.revivable (fun _ => id) holds
  | ignored => exact holds

theorem new_revivable {config : Config env} (connected : config.rendezvous.isSome = true)
    (direct : config.relayOnly = false) : (new config).Revivable := by
  refine new_induction Revivable config ⟨connected, direct, fun idx peer there => ?_⟩ ?_
  · simp [empty] at there
  · intro pm pubkey endpoint isStatic endpoints nowMs holds
    exact holds.pushPeer (holds.startPath endpoints nowMs)

/-- In every run of a manager with a rendezvous server and without relay-only mode in which no
event drops a session, a peer in state Idle has an uncommitted path, and at every moment the path
machine answers the timer and the TUN device for it with a probe, a lookup or the relay. -/
theorem idle_peer_revivable (config : Config env) (connected : config.rendezvous.isSome = true)
    (direct : config.relayOnly = false) (events : List ShardEvent)
    (spared : Machine.Admissible shardStep Spares (new config) events) (idx : Nat) (peer : Peer env)
    (holds : (Machine.run shardStep (new config) events).peers[idx]? = some peer)
    (idle : peer.state = .idle) :
    peer.path.isCommitted = false ∧
      ∀ nowMs, ((Machine.run shardStep (new config) events).advancePath idx nowMs).2.Attempts := by
  have revivable : (Machine.run shardStep (new config) events).Revivable :=
    Machine.run_invariant shardStep Spares Revivable
      (fun pm event holds spares => (pm.shardStep_stepped event).revivable spares holds)
      (new config) events (new_revivable connected direct) spared
  have leads := revivable.paths idx peer holds (by rw [idle]; rfl)
  refine ⟨leads.uncommitted, fun nowMs => ?_⟩
  simp only [advancePath, holds]
  exact (leads.advance nowMs).2

section Runs

open Transparent

def connectedConfig (membership : Option Nat) : Config (primitives .bulk) :=
  { config 2 [1] membership 0 1 with rendezvous := some (⟨9, 9⟩ : SocketAddr) }

def unanswered : List ShardEvent :=
  [.own (.tun [0] (moment 0 0 1 7)), .own (.tick (moment 100000 100 2 8))]

/-- The peer is Idle after that and its path goes on. -/
theorem unanswered_peer_revivable :
    ∃ peer : Peer (primitives .bulk),
      (Machine.run shardStep (new (connectedConfig none)) unanswered).peers[0]? = some peer ∧
        peer.state = .idle ∧ peer.path.isCommitted = false ∧
        ((Machine.run shardStep (new (connectedConfig none)) unanswered).advancePath 0
          100001).2.Attempts := by
  have given : ((Machine.run shardStep (new (connectedConfig none)) unanswered).peers[0]?).any
      (·.state.isIdle) = true := by decide +kernel
  simp only [Option.any_eq_true] at given
  obtain ⟨peer, holds, isIdle⟩ := given
  have idle := PeerState.isIdle_iff.mp isIdle
  have spared : Machine.Admissible shardStep Spares (new (connectedConfig none)) unanswered := by
    refine ⟨trivial, ?_, trivial⟩
    rintro idx ⟨membership, _, joined, _⟩
    have alone : (shardStep (new (connectedConfig none))
        (.own (.tun [0] (moment 0 0 1 7)))).membership.isSome = false := by decide +kernel
    rw [joined] at alone
    cases alone
  have revivable := idle_peer_revivable (connectedConfig none) rfl rfl unanswered spared 0 peer
    holds idle
  exact ⟨peer, holds, idle, revivable.1, revivable.2 100001⟩

def swept : PeerManager (primitives .bulk) :=
  Machine.run shardStep (new (connectedConfig (some 0)))
    [.own (.udp ⟨1, 1⟩ (init 1 7 10 (toBeBytes 8 100)) (moment 0 50 0 8)),
      .own (.tick (moment Yip.rekeyIntervalMs 150 0 9))]

/-- The peer of the swept session is Idle with a committed path, and neither the timer nor a packet
makes the node send anything for it, at any later moment. -/
theorem swept_peer_stays_down :
    (swept.peers.map fun peer => (peer.state.isIdle, peer.path.isCommitted)) = [(true, true)] ∧
      (∀ nowMs, (swept.advancePath 0 nowMs).2 = .idle) ∧
      (swept.tickDispatch (moment 300000 150 0 10)).2 = [] ∧
      (swept.onTunDispatch [0] (moment 300000 150 0 10)).2 = [] := by
  have given : (swept.peers[0]?).any (fun peer =>
      peer.path.isCommitted && !peer.path.isRelayOnly) = true := by decide +kernel
  refine ⟨by decide +kernel, fun nowMs => ?_, by decide +kernel, by decide +kernel⟩
  simp only [Option.any_eq_true, Bool.and_eq_true, Bool.not_eq_true'] at given
  obtain ⟨peer, holds, committed⟩ := given
  simp [advancePath, holds, PathState.advance, committed.1, committed.2]

end Runs

end PeerManager

end Yip
