/-
This file is about hole punching: the server sends the looked-up node a hint with the address
the lookup came from, and that node starts a handshake towards it.
-/

import Yip.Networked
import Yip.PeerManager.Dispatch
import Yip.Rdv.Server

namespace Yip.Rdv

open Crypto Members Option

section Hints

variable (suite : Suite)

def RendezvousServer.hintFor (server : RendezvousServer) (src : Members.SocketAddr)
    (node : NodeId) (nowMs nowSecs : Nat) : Option (Members.SocketAddr × List Byte) :=
  (server.handle suite src (.lookup node) nowMs nowSecs).2.findSome? fun (dst, message) =>
    match message with
    | .punchHint _ _ => (encode message).map (dst, ·)
    | _ => none

def probesAt {env : Primitives} (pm : PeerManager env) (idx : Nat) (addr : Yip.SocketAddr)
    (datagram : List Byte) (moment : Moment) : Bool :=
  match pm.onUdpDispatch pm.serverAddr datagram moment with
  | none => false
  | some (after, out) =>
    match (after.peers[idx]?).map Peer.state with
    | some (.handshaking handshaking) =>
      decide (handshaking.target = addr) && out.udp.any fun sent => sent.dst = addr
    | _ => false

end Hints

/-! ### The server -/

section Server

variable {suite : Suite} {server : RendezvousServer} {src : Members.SocketAddr} {node : NodeId}
  {nowMs nowSecs : Nat} {reg : Reg}

theorem hintFor_registered (registered : server.liveReg node nowMs = some reg)
    (budget : (server.rateOk src nowMs).2 = true) :
    server.hintFor suite src node nowMs nowSecs =
      some (reg.addr, Byte.ofNat 4 :: (node.toList ++ putAddr src)) := by
  obtain ⟨rates, counted⟩ := server.rateOk_fst src nowMs
  have stillRegistered :
      ({ server with rates := rates } : RendezvousServer).liveReg node nowMs = some reg :=
    registered
  unfold RendezvousServer.hintFor RendezvousServer.handle
  dsimp only
  rw [if_pos budget, counted, RendezvousServer.answer, stillRegistered]
  rfl

end Server

/-! ### The daemon -/

section Daemon

variable {base : Primitives} {suite : Suite} {skew : Nat} {jitter : Nat → Nat}
  {pm : PeerManager (networked suite skew jitter base)}

theorem onUdpDispatch_hint (configured : pm.rendezvous.isSome) (node : NodeId)
    (src : Members.SocketAddr) (moment : Moment) :
    pm.onUdpDispatch pm.serverAddr (Byte.ofNat 4 :: (node.toList ++ putAddr src)) moment =
      some (pm.onPunchTo (nodeNumber node) (endpoint src) moment) := by
  obtain ⟨client, isClient⟩ := isSome_iff_exists.mp configured
  have read : (networked suite skew jitter base).rendezvous.parse client
      (Byte.ofNat 4 :: (node.toList ++ putAddr src)) =
        .punchTo (nodeNumber node) (endpoint src) :=
    parse_encode (show (Message.punchHint node src).Sized from trivial) rfl client
  unfold PeerManager.onUdpDispatch
  dsimp only
  rw [if_pos ⟨configured, rfl⟩]
  unfold PeerManager.onRdv
  rw [isClient]
  dsimp only
  rw [read]

end Daemon

section Peers

variable {env : Primitives} {pm : PeerManager env} {idx node : Nat} {peer : Peer env}
  {addr : Yip.SocketAddr} {moment : Moment}

def admissible (pm : PeerManager env) (peer : Peer env) (nowSecs : Nat) : Bool :=
  pm.membership.all fun membership =>
    peer.isStatic || env.mesh.memberCertValid membership peer.pubkey nowSecs

theorem beginHandshake_direct (known : pm.peers[idx]? = some peer)
    {hs : env.noise.HandshakeState} {initPkt : List Byte}
    (written : pm.startInitiator peer.pubkey (moment.initSeed idx) moment.nowTai64n =
      some (hs, initPkt)) :
    ∃ handshaking, ((pm.beginHandshake idx addr false moment).1.peers[idx]?).map Peer.state =
        some (.handshaking handshaking) ∧ handshaking.target = addr ∧
      (pm.beginHandshake idx addr false moment).2 = [⟨0, addr, handshaking.initPkt⟩] := by
  unfold PeerManager.beginHandshake
  simp only [known, written, PeerManager.pushEgress, if_neg Bool.false_ne_true,
    PeerManager.getElem?_modifyPeer_self, map_some]
  exact ⟨_, rfl, rfl, rfl⟩

theorem onPunchTo_probes (addr : Yip.SocketAddr) (found : pm.byNode node = some idx)
    (known : pm.peers[idx]? = some peer) (idle : peer.state = .idle)
    (admits : admissible pm peer moment.nowSecs = true)
    (writes : (pm.startInitiator peer.pubkey (moment.initSeed idx) moment.nowTai64n).isSome) :
    ∃ handshaking, ((pm.onPunchTo node addr moment).1.peers[idx]?).map Peer.state =
        some (.handshaking handshaking) ∧ handshaking.target = addr ∧
      (pm.onPunchTo node addr moment).2.udp = [⟨0, addr, handshaking.initPkt⟩] := by
  obtain ⟨⟨hs, initPkt⟩, written⟩ := isSome_iff_exists.mp writes
  have quiet : ¬(peer.state.isEstablished || !admissible pm peer moment.nowSecs) = true := by
    simp [idle, admits, PeerState.isEstablished]
  have isIdle : peer.state.isIdle = true := PeerState.isIdle_iff.mpr idle
  -- the address is learned before the handshake starts; our keys and the peer's stay
  let learned := pm.modifyPeer idx fun peer =>
    { peer with path := peer.path.onPeerCandidate addr moment.nowMs }
  have begins : pm.onPunchTo node addr moment =
      ((learned.beginHandshake idx addr false moment).1,
        ⟨none, (learned.beginHandshake idx addr false moment).2⟩) := by
    unfold PeerManager.onPunchTo
    simp only [found, known]
    exact (if_neg quiet).trans (if_pos isIdle)
  have held : learned.peers[idx]? =
      some { peer with path := peer.path.onPeerCandidate addr moment.nowMs } := by
    rw [PeerManager.getElem?_modifyPeer_self, known, map_some]
  rw [begins]
  exact beginHandshake_direct held written

theorem onPunchTo_elsewhere (apart : pm.byNode node ≠ some idx) :
    (pm.onPunchTo node addr moment).1.peers[idx]? = pm.peers[idx]? := by
  have untouched (pm : PeerManager env) {other : Nat} (apart : other ≠ idx)
      (f : Peer env → Peer env) : (pm.modifyPeer other f).peers[idx]? = pm.peers[idx]? := by
    rw [PeerManager.getElem?_modifyPeer]
    simp [apart]
  unfold PeerManager.onPunchTo
  split
  · rfl
  · rename_i other found
    have different : other ≠ idx := fun same => apart (found.trans (congrArg some same))
    split
    · rfl
    · dsimp only
      split
      · rfl
      · split
        · unfold PeerManager.beginHandshake
          split
          · exact untouched _ different _
          · split
            · exact untouched _ different _
            · split
              · exact untouched _ different _
              · exact (untouched _ different _).trans (untouched _ different _)
        · exact untouched _ different _

end Peers

/-! ### The two together -/

section Together

variable {base : Primitives} {suite : Suite} {skew : Nat} {jitter : Nat → Nat}

/-- A registered node is sent a hint for every lookup. It probes an idle, admissible peer at the
address the lookup came from exactly if the id of the peer is the one that was looked up. -/
theorem punch_hint_probes_iff {server : RendezvousServer} {src : Members.SocketAddr}
    {node : NodeId} {nowMs nowSecs : Nat} {reg : Reg}
    (registered : server.liveReg node nowMs = some reg)
    (budget : (server.rateOk src nowMs).2 = true)
    {pm : PeerManager (networked suite skew jitter base)} {idx : Nat}
    {peer : Peer (networked suite skew jitter base)} (moment : Moment)
    (configured : pm.rendezvous.isSome)
    (exact : IndexTable.Exact Peer.node pm.peers pm.byNode)
    (known : pm.peers[idx]? = some peer) (idle : peer.state = .idle)
    (admits : admissible pm peer moment.nowSecs = true)
    (writes : (pm.startInitiator peer.pubkey (moment.initSeed idx) moment.nowTai64n).isSome) :
    ∃ datagram, server.hintFor suite src node nowMs nowSecs = some (reg.addr, datagram) ∧
      (probesAt pm idx (endpoint src) datagram moment ↔ peer.node = nodeNumber node) := by
  refine ⟨_, hintFor_registered registered budget, ?_⟩
  unfold probesAt
  rw [onUdpDispatch_hint configured]
  dsimp only
  by_cases named : pm.byNode (nodeNumber node) = some idx
  · obtain ⟨handshaking, probing, target, sent⟩ :=
      onPunchTo_probes (endpoint src) named known idle admits writes
    obtain ⟨found, same, isNode⟩ := (exact (nodeNumber node) idx).mp named
    rw [probing]
    dsimp only
    rw [target, sent]
    refine iff_of_true (by simp) ?_
    cases known.symm.trans same
    exact isNode
  · rw [onPunchTo_elsewhere named, known, map_some, idle]
    refine iff_of_false Bool.false_ne_true fun isNode => named ?_
    exact (exact (nodeNumber node) idx).mpr ⟨peer, known, isNode⟩

end Together

/-! ### A server with one node registered -/

open Members.Transparent Yip.Transparent

def daemon : Primitives := networked suite clockSkewSecs id (primitives .bulk)

def config (own other : Nat) : PeerManager.Config daemon where
  localPriv := key own
  localPub := key own
  peers := [(key other, none)]
  l2 := true
  rendezvous := some ⟨10, 53⟩
  membership := none
  relayOnly := false
  obfOn := false
  dataSymbolSize := 1200
  rekeyIntervalMs := rekeyIntervalMs
  bootFloorTs := 0
  shardId := 0
  numShards := 1
  redundancyPct := 0

def knowing (own other : Nat) : PeerManager daemon := PeerManager.new (config own other)

theorem knowing_exact (own other : Nat) :
    IndexTable.Exact Peer.node (knowing own other).peers (knowing own other).byNode := by
  change IndexTable.Exact Peer.node
    ((PeerManager.empty (config own other)).configure (key other, none)).peers
    ((PeerManager.empty (config own other)).configure (key other, none)).byNode
  exact IndexTable.exact_nil.push fun _ member => absurd member List.not_mem_nil

def idOf (own : Nat) : NodeId := suite.blake2s 16 (asciiBytes "yip-rdv-v1" ++ key own)

def addrOf (own : Nat) : Members.SocketAddr := addr own

def serving (own : Nat) : RendezvousServer :=
  (RendezvousServer.new.handle suite (addrOf own) (.register (idOf own) 0) 0 0).1

/-- A node that has its own key among its peers, and looks that up, probes itself. -/
theorem self_lookup_probes :
    ∃ datagram, (serving 1).hintFor suite (addrOf 2) (idOf 1) 100 0 = some (addrOf 1, datagram) ∧
      probesAt (knowing 1 1) 0 (endpoint (addrOf 2)) datagram (moment 100 0 7 3) := by
  have registered : (serving 1).liveReg (idOf 1) 100 = some ⟨addrOf 1, 60000, 0, none⟩ := by
    decide +kernel
  obtain ⟨datagram, sent, probes⟩ := punch_hint_probes_iff registered
    (show ((serving 1).rateOk (addrOf 2) 100).2 = true by decide +kernel) (moment 100 0 7 3)
    (show (knowing 1 1).rendezvous.isSome by decide +kernel) (knowing_exact 1 1)
    (show (knowing 1 1).peers[0]? = some ((knowing 1 1).peers.get ⟨0, by decide +kernel⟩) from rfl)
    rfl (by decide +kernel) (by decide +kernel)
  exact ⟨datagram, sent, probes.mpr (by decide +kernel)⟩

/-- Node 2 looks up node 1, which has it as an idle peer. The hint makes node 1 do nothing. -/
theorem hint_names_its_receiver :
    ((knowing 1 2).peers.map fun peer => (peer.pubkey, peer.state.isIdle)) = [(key 2, true)] ∧
    (knowing 1 2).byNode (daemon.nodeId (key 2)) = some 0 ∧
    ((knowing 1 2).peers.all fun peer => admissible (knowing 1 2) peer 0) ∧
    ∃ datagram ∈ ((serving 1).hintFor suite (addrOf 2) (idOf 1) 100 0).map Prod.snd,
      probesAt (knowing 1 2) 0 (endpoint (addrOf 2)) datagram (moment 100 0 7 3) = false := by
  decide +kernel

end Yip.Rdv
