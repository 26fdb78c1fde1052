/-
This file is about Inits whose label is not newer than the last one accepted from their peer.
-/

import Yip.PeerManager.Dispatch

namespace Yip.PeerManager

open Crypto Transport

variable {env : Primitives}

/-! ### Where an Init goes -/

inductive InitFor (pm : PeerManager env) (src : SocketAddr) (dg : List Byte) (moment : Moment)
    (init : InitRead) (idx : Nat) : Bool → Prop where
  | direct (elsewhere : ¬(pm.rendezvous.isSome ∧ src = pm.serverAddr))
      (read : pm.readInit dg moment = some init)
      (found : (pm.position fun peer => peer.pubkey = init.remoteStatic) = some idx) :
      InitFor pm src dg moment init idx false
  | relayed {client : env.rendezvous.Client} {node : Nat} {payload : List Byte}
      (connected : pm.rendezvous = some client) (server : src = pm.serverAddr)
      (nonempty : dg ≠ []) (parsed : env.rendezvous.parse client dg = .relayed node payload)
      (read : pm.readInit payload moment = some init) (found : pm.byNode node = some idx) :
      InitFor pm src dg moment init idx true

variable {dg : List Byte}

theorem readInit_kind {pm : PeerManager env} {moment : Moment} {init : InitRead}
    (read : pm.readInit dg moment = some init) :
    ∃ message, dg = PacketType.handshakeInit.toByte :: message := by
  unfold readInit HandshakeState.startResponder at read
  cases dg with
  | nil => simp at read
  | cons kind message =>
    by_cases same : kind = PacketType.handshakeInit.toByte
    · exact ⟨message, by rw [same]⟩
    · simp [same] at read

theorem onUdpDispatch_direct {pm : PeerManager env} {src : SocketAddr} {moment : Moment}
    {init : InitRead} {idx : Nat} (elsewhere : ¬(pm.rendezvous.isSome ∧ src = pm.serverAddr))
    (read : pm.readInit dg moment = some init)
    (found : (pm.position fun peer => peer.pubkey = init.remoteStatic) = some idx) :
    pm.onUdpDispatch src dg moment = some (pm.answerInit idx src init moment) := by
  have handled : pm.handleHandshakeInit src dg moment = pm.answerInit idx src init moment := by
    simp only [handleHandshakeInit, read, admitInitiator, found]
  obtain ⟨message, rfl⟩ := readInit_kind read
  simp only [onUdpDispatch, elsewhere, if_false, if_true, handled]

theorem onUdpDispatch_relayed {pm : PeerManager env} {src : SocketAddr} {moment : Moment}
    {init : InitRead} {idx : Nat} {client : env.rendezvous.Client} {node : Nat}
    {payload : List Byte} (connected : pm.rendezvous = some client) (server : src = pm.serverAddr)
    (nonempty : dg ≠ []) (parsed : env.rendezvous.parse client dg = .relayed node payload)
    (read : pm.readInit payload moment = some init) (found : pm.byNode node = some idx) :
    pm.onUdpDispatch src dg moment = some
      ((pm.modifyPeer idx fun peer =>
        { peer with relay := peer.relay || !peer.state.isEstablished }).relayedHandshakeInit idx
          payload moment) := by
  obtain ⟨message, rfl⟩ := readInit_kind read
  cases dg with
  | nil => exact absurd rfl nonempty
  | cons kind rest =>
    simp only [onUdpDispatch, connected, server, Option.isSome_some, and_self, if_true, onRdv,
      parsed, onRelayed, List.head?_cons, found]

/-! ### What a stale Init may not change -/

/-- Nothing about the peer's session has changed. -/
structure Inert (before after : PeerManager env) (idx : Nat) : Prop where
  byTag : after.byTag = before.byTag
  state : (after.peers[idx]?).map Peer.state = (before.peers[idx]?).map Peer.state
  endpoint : (after.peers[idx]?).map Peer.endpoint = (before.peers[idx]?).map Peer.endpoint
  relay : (after.peers[idx]?).map Peer.relay = (before.peers[idx]?).map Peer.relay
  admitted : (after.peers[idx]?).map Peer.admittedCertNotAfter =
    (before.peers[idx]?).map Peer.admittedCertNotAfter

/-- At most a response given before is sent again. -/
def ResendsAtMost (pm : PeerManager env) (peer : Peer env) (epochs : EpochSet env)
    (out : DispatchOut) : Prop :=
  out = .none ∨ ∃ resp addr viaRelay,
    (peer.cachedResp = some resp ∨ ∃ next, epochs.next = some next ∧ next.cachedResp = resp) ∧
      out = ⟨none, pm.pushEgress peer viaRelay [⟨0, addr, resp⟩]⟩

/-- The Init can neither end the session nor change what it is admitted for. -/
def Harmless (pm : PeerManager env) (peer : Peer env) (init : InitRead) (viaRelay : Bool)
    (nowSecs : Nat) : Prop :=
  if viaRelay then init.initEph = none ∨ pm.certAdmits init.cert init.remoteStatic nowSecs
  else peer.relay ∨ (pm.certAdmits init.cert init.remoteStatic nowSecs ∧
    ∀ cert, env.mesh.decodeCert init.cert = some cert →
      peer.admittedCertNotAfter = some (env.mesh.notAfter cert))

theorem Inert.refl (pm : PeerManager env) (idx : Nat) : pm.Inert pm idx :=
  ⟨rfl, rfl, rfl, rfl, rfl⟩

theorem not_inert_dropSession {pm : PeerManager env} {idx : Nat} {peer : Peer env}
    {epochs : EpochSet env} (holds : pm.peers[idx]? = some peer)
    (live : peer.state = .established epochs) : ¬pm.Inert (pm.dropSession idx) idx := by
  intro inert
  have state := inert.state
  simp [dropSession, holds, live] at state

theorem inert_renewAdmission_iff {pm : PeerManager env} {idx : Nat} {peer : Peer env}
    (holds : pm.peers[idx]? = some peer) (cert : List Byte) :
    pm.Inert (pm.renewAdmission idx cert) idx ↔
      ∀ decoded, env.mesh.decodeCert cert = some decoded →
        peer.admittedCertNotAfter = some (env.mesh.notAfter decoded) := by
  cases decodes : env.mesh.decodeCert cert with
  | none =>
    refine iff_of_true ⟨rfl, ?_, ?_, ?_, ?_⟩ (by simp) <;> simp [renewAdmission, holds, decodes]
  | some decoded =>
    constructor
    · intro inert found same
      have admitted := inert.admitted
      rw [← Option.some.inj same]
      simpa [renewAdmission, holds, decodes] using admitted.symm
    · intro known
      refine ⟨rfl, ?_, ?_, ?_, ?_⟩ <;> simp [renewAdmission, holds, decodes, known decoded rfl]

/-! ### A stale Init for a live session -/

section Stale

variable {pm : PeerManager env} {idx : Nat} {peer : Peer env} {epochs : EpochSet env}
  {init : InitRead}

section

variable (holds : pm.peers[idx]? = some peer) (live : peer.state = .established epochs)

include holds live

theorem rekeyInitCore_stale (stale : pm.acceptFreshInit peer init.initTs = false)
    (initEph : List Byte) (src : SocketAddr) (viaRelay : Bool) :
    (pm.rekeyInitCore idx init initEph src viaRelay).1 = pm ∧
      pm.ResendsAtMost peer epochs (pm.rekeyInitCore idx init initEph src viaRelay).2 := by
  unfold rekeyInitCore
  simp only [holds, live, stale]
  by_cases original : peer.cachedRespInitEph = some initEph
  · rw [if_pos original]
    refine ⟨rfl, ?_⟩
    cases cached : peer.cachedResp with
    | none => exact Or.inl rfl
    | some resp => exact Or.inr ⟨resp, _, viaRelay, Or.inl cached, rfl⟩
  · rw [if_neg original]
    cases answered : epochs.nextCachedRespFor initEph with
    | none => exact ⟨rfl, Or.inl rfl⟩
    | some resp =>
      obtain ⟨next, isNext, same⟩ := Option.bind_eq_some_iff.mp answered
      split at same
      · exact ⟨rfl, Or.inr ⟨resp, _, viaRelay, Or.inr ⟨next, isNext, Option.some.inj same⟩, rfl⟩⟩
      · cases same

theorem answerInit_stale (stale : pm.acceptFreshInit peer init.initTs = false) (src : SocketAddr)
    (moment : Moment) :
    pm.ResendsAtMost peer epochs (pm.answerInit idx src init moment).2 ∧
      (pm.Inert (pm.answerInit idx src init moment).1 idx ↔
        pm.Harmless peer init false moment.nowSecs) := by
  unfold answerInit Harmless
  simp only [holds, live]
  by_cases relayed : peer.relay
  · simp only [relayed, if_true]
    exact ⟨Or.inl rfl, by simpa using Inert.refl pm idx⟩
  by_cases admits : pm.certAdmits init.cert init.remoteStatic moment.nowSecs
  · have renewed := inert_renewAdmission_iff holds init.cert
    have settled : ∀ result : PeerManager env × DispatchOut,
        result.1 = pm.renewAdmission idx init.cert ∧ pm.ResendsAtMost peer epochs result.2 →
        pm.ResendsAtMost peer epochs result.2 ∧ (pm.Inert result.1 idx ↔
          ∀ cert, env.mesh.decodeCert init.cert = some cert →
            peer.admittedCertNotAfter = some (env.mesh.notAfter cert)) := by
      rintro result ⟨same, resends⟩
      exact ⟨resends, same ▸ renewed⟩
    simp only [relayed, admits, Bool.not_true, Bool.false_eq_true, if_false, true_and, false_or]
    apply settled
    cases ephemeral : init.initEph with
    | none => exact ⟨rfl, Or.inl rfl⟩
    | some initEph =>
      -- The peer the core sees differs from ours in its admission only.
      have kept : (pm.renewAdmission idx init.cert).peers[idx]? = some
          { peer with
            admittedCertNotAfter := ((env.mesh.decodeCert init.cert).map env.mesh.notAfter).or
              peer.admittedCertNotAfter } := by
        simp only [renewAdmission, getElem?_modifyPeer_self, holds, Option.map_some]
      exact rekeyInitCore_stale kept live stale initEph src false
  · simp only [relayed, admits, Bool.not_false, if_true]
    exact ⟨Or.inl rfl, by simpa using not_inert_dropSession holds live⟩

theorem relayedHandshakeInit_stale (known : init.remoteStatic = peer.pubkey)
    (stale : pm.acceptFreshInit peer init.initTs = false) {dg : List Byte} {moment : Moment}
    (read : pm.readInit dg moment = some init) :
    pm.ResendsAtMost peer epochs (pm.relayedHandshakeInit idx dg moment).2 ∧
      (pm.Inert (pm.relayedHandshakeInit idx dg moment).1 idx ↔
        pm.Harmless peer init true moment.nowSecs) := by
  unfold relayedHandshakeInit Harmless
  simp only [read, holds, known, live, ne_eq, not_true_eq_false, if_false, if_true, stale,
    Bool.and_false, Bool.or_false]
  cases ephemeral : init.initEph with
  | none => exact ⟨Or.inl rfl, by simpa using Inert.refl pm idx⟩
  | some initEph =>
    by_cases admits : pm.certAdmits init.cert peer.pubkey moment.nowSecs
    · by_cases relayed : peer.relay
      · have flagged : { peer with relay := true } = peer := by rw [← relayed]
        rw [modifyPeer_eq_self holds flagged]
        obtain ⟨same, resends⟩ :=
          rekeyInitCore_stale holds live stale initEph pm.serverAddr true
        simp only [admits, relayed, Bool.not_true, Bool.false_eq_true, if_false, if_true, same]
        exact ⟨resends, iff_of_true (Inert.refl pm idx) (Or.inr trivial)⟩
      · simp only [admits, relayed, Bool.not_true, Bool.false_eq_true, if_false]
        exact ⟨Or.inl rfl, by simpa using Inert.refl pm idx⟩
    · simp only [admits, Bool.not_false, if_true]
      exact ⟨Or.inl rfl, by simpa using not_inert_dropSession holds live⟩

end

end Stale

/-- When a stale Init is inert. Whatever it carries and whenever it arrives, it gets at most a reply
that was already given. It leaves the session and its tags, the endpoint, the relay flag and the
admission of the peer alone exactly if its certificate admits the peer at that time and, on the
direct path, says about the end of the admission what is already known. -/
theorem stale_init_inert_iff (pm : PeerManager env) (src : SocketAddr) (dg : List Byte)
    (moment : Moment) (init : InitRead) (idx : Nat) (viaRelay : Bool)
    (arrives : pm.InitFor src dg moment init idx viaRelay) (peer : Peer env)
    (epochs : EpochSet env) (holds : pm.peers[idx]? = some peer)
    (live : peer.state = .established epochs) (known : init.remoteStatic = peer.pubkey)
    (stale : pm.acceptFreshInit peer init.initTs = false) :
    ∃ after out, pm.onUdpDispatch src dg moment = some (after, out) ∧
      pm.ResendsAtMost peer epochs out ∧
      (pm.Inert after idx ↔ pm.Harmless peer init viaRelay moment.nowSecs) := by
  cases arrives with
  | direct elsewhere read found =>
    rw [onUdpDispatch_direct elsewhere read found]
    obtain ⟨resends, inert⟩ := answerInit_stale holds live stale src moment
    exact ⟨_, _, rfl, resends, inert⟩
  | relayed connected server nonempty parsed read found =>
    have unmoved : (peer.relay || !peer.state.isEstablished) = peer.relay := by
      simp [live, PeerState.isEstablished]
    have flagged : { peer with relay := peer.relay || !peer.state.isEstablished } = peer := by
      rw [unmoved]
    rw [onUdpDispatch_relayed connected server nonempty parsed read found,
      modifyPeer_eq_self holds flagged]
    obtain ⟨resends, inert⟩ := relayedHandshakeInit_stale holds live known stale read
    exact ⟨_, _, rfl, resends, inert⟩

section Runs

open Transparent

def firstInit : List Byte := init 1 7 10 (toBeBytes 8 100)

def renewed : PeerManager (primitives .bulk) :=
  Machine.run step (manager 2 [1] (some 0) 0 1)
    [.udp ⟨1, 1⟩ firstInit (moment 0 50 0 8),
      .udp ⟨1, 1⟩ (init 1 9 20 (toBeBytes 8 1000)) (moment 1 90 0 10)]

def answered : PeerManager (primitives .bulk) :=
  (manager 2 [1] (some 0) 0 1).step (.udp ⟨1, 1⟩ firstInit (moment 0 50 0 8))

/-- A replay of the Init that built the session, while its certificate still admits, is inert. -/
theorem replay_while_valid_inert :
    ∃ after out, answered.onUdpDispatch ⟨66, 66⟩ firstInit (moment 1 60 0 9) = some (after, out) ∧
      answered.Inert after 0 := by
  have readable : ((answered.readInit firstInit (moment 1 60 0 9)).any fun init =>
      decide (init.remoteStatic = key 1 ∧ init.initTs = 10 ∧ init.cert = toBeBytes 8 100)) =
        true := by decide +kernel
  have live : ((answered.peers[0]?).any fun peer => peer.state.isEstablished &&
      decide (peer.pubkey = key 1 ∧ answered.acceptFreshInit peer 10 = false ∧
        peer.admittedCertNotAfter = some 100)) = true := by decide +kernel
  have unconnected : answered.rendezvous.isSome = false := by decide +kernel
  have first : (answered.position fun peer => peer.pubkey = key 1) = some 0 := by decide +kernel
  have admits : answered.certAdmits (toBeBytes 8 100) (key 1) 60 = true := by decide +kernel
  have ends : ((primitives .bulk).mesh.decodeCert (toBeBytes 8 100)).map
      (primitives .bulk).mesh.notAfter = some (100 : Nat) := by decide +kernel
  simp only [Option.any_eq_true, decide_eq_true_eq, Bool.and_eq_true] at readable live
  obtain ⟨init, read, isKey, label, cert⟩ := readable
  obtain ⟨peer, holds, established, isPeer, stale, admitted⟩ := live
  obtain ⟨epochs, state⟩ := PeerState.isEstablished_iff.mp established
  obtain ⟨after, out, dispatched, _, inert⟩ :=
    stale_init_inert_iff answered ⟨66, 66⟩ firstInit (moment 1 60 0 9) init 0 false
      (.direct (by simp [unconnected]) read (by rw [isKey, first])) peer epochs holds state
      (by rw [isKey, isPeer]) (by rw [label, stale])
  refine ⟨after, out, dispatched, inert.mpr (Or.inr ⟨by rw [cert, isKey]; exact admits, ?_⟩)⟩
  intro found decoded
  rw [cert] at decoded
  rw [decoded] at ends
  exact admitted.trans ends.symm

/-- An old Init arrives from anywhere after its certificate has ended. The label is older than the
last one accepted, the peer has long presented another certificate, and the session is torn down.
While the old certificate is still valid the Init takes back the end of the admission instead. -/
theorem replayed_init_drops_session :
    (renewed.peers.map fun peer =>
      (peer.state.isEstablished, peer.lastAcceptedInitTs, peer.admittedCertNotAfter)) =
        [(true, some 20, some 1000)] ∧
      ((renewed.readInit firstInit (moment 2 150 0 11)).map fun init =>
        (init.remoteStatic, init.initTs)) = some (key 1, 10) ∧
      ((renewed.step (.udp ⟨66, 66⟩ firstInit (moment 2 150 0 11))).peers.map fun peer =>
        (peer.state.isEstablished, peer.admittedCertNotAfter)) = [(false, none)] ∧
      ((renewed.step (.udp ⟨66, 66⟩ firstInit (moment 2 95 0 11))).peers.map fun peer =>
        (peer.state.isEstablished, peer.admittedCertNotAfter)) = [(true, some 100)] := by
  decide +kernel

end Runs

end Yip.PeerManager
