/-
This file is about how long a peer is admitted. `acceptedCert` is the certificate a datagram makes
the manager accept for a peer, and `Backed` says that a live session is admitted at least as long
as the last of them lasts. Each kind of message keeps that (`handleHandshakeInit_backed`,
`relayedInit_backed`), so every run does (`Bearer.run_sound`).
-/

import Yip.PeerManager.Freshness

namespace Yip

open Crypto Transport List Option

namespace PeerManager

variable {env : Primitives}

/-! ### Accepted handshakes -/

section Handshakes

variable (pm : PeerManager env)

/-- The certificate the peer presents with an Init that is accepted for it. -/
def certOfInit (idx : Nat) (node : Option Nat) (message : List Byte) (moment : Moment) :
    Option (List Byte) :=
  (pm.readInit message moment).bind fun init =>
    match node with
    | some node =>
      if pm.byNode node = some idx ∧ (pm.peers[idx]?).any fun peer =>
          decide (init.remoteStatic = peer.pubkey) && pm.acceptsInit peer init true moment.nowSecs
      then some init.cert else none
    | none =>
      let (pm, position) := pm.admitInitiator init moment
      if position = some idx ∧ (pm.peers[idx]?).any fun peer =>
          pm.acceptsInit peer init false moment.nowSecs
      then some init.cert else none

/-- The certificate in a response that completes a handshake or a rekey of the peer. -/
def certOfResp (peer : Peer env) (message : List Byte) (viaRelay : Bool) (nowSecs : Nat) :
    Option (List Byte) :=
  let read := match peer.state with
    | .idle => none
    | .handshaking handshaking => HandshakeState.readResponse env handshaking.hs message
    | .established epochs =>
      if peer.relay = viaRelay then
        epochs.rekey.bind fun rekey => HandshakeState.readResponse env rekey.hs message
      else none
  read.bind fun (_, payload) =>
    if pm.certAdmits payload peer.pubkey nowSecs then some payload else none

/-- The peer a direct response is for: first one that rekeys at the source, then one that
handshakes. -/
def respondent (src : SocketAddr) : Option Nat :=
  (pm.position (rekeyingAt src)).or (pm.position (handshakingAt src))

/-- The certificate an accepted handshake message brings for the peer. -/
def certOfMessage (idx : Nat) (src : SocketAddr) (node : Option Nat) (message : List Byte)
    (moment : Moment) : Option (List Byte) :=
  if message.head? = some PacketType.handshakeInit.toByte then
    pm.certOfInit idx node message moment
  else if message.head? = some PacketType.handshakeResp.toByte then
    if node.elim (pm.respondent src) pm.byNode = some idx then
      (pm.peers[idx]?).bind fun peer => pm.certOfResp peer message node.isSome moment.nowSecs
    else none
  else none

/-- The certificate a datagram brings for the peer, directly or over the relay. -/
def acceptedCert (idx : Nat) (src : SocketAddr) (dg : List Byte) (moment : Moment) :
    Option (List Byte) :=
  (pm.arrival src dg).bind fun (node, message) => pm.certOfMessage idx src node message moment

end Handshakes

/-! ### Admissions -/

/-- What the peer's live session was admitted until, if it has one. -/
def admissionOf (peer : Option (Peer env)) : Option (Option Nat) :=
  peer.bind fun peer =>
    if peer.state.isEstablished then some peer.admittedCertNotAfter else none

/-- A live session is admitted at least as long as its last certificate lasts. -/
def Backed (cert : Option env.mesh.Cert) (admission : Option (Option Nat)) : Prop :=
  ∀ admitted ∈ admission, ∀ last ∈ cert, ∃ limit ∈ admitted, env.mesh.notAfter last ≤ limit

variable {pm after : PeerManager env} {peer : Peer env} {idx : Nat} {cert : Option env.mesh.Cert}

theorem backed_none : Backed cert none := nofun

variable {node : Nat} (bytes : List Byte) {epochs : EpochSet env}

theorem admissionOf_established (live : peer.state = .established epochs) :
    admissionOf (some peer) = some peer.admittedCertNotAfter := by
  simp [admissionOf, live, PeerState.isEstablished]

theorem admissionOf_waiting (waiting : peer.state.isEstablished = false) :
    admissionOf (some peer) = none := by
  simp [admissionOf, waiting]

theorem backed_own :
    Backed (env.mesh.decodeCert bytes)
      (some ((env.mesh.decodeCert bytes).map env.mesh.notAfter)) := by
  rintro _ ⟨⟩ last isLast
  rw [mem_def.mp isLast]
  exact ⟨_, rfl, le_rfl⟩

theorem backed_renewed (admitted : Option Nat) :
    Backed (env.mesh.decodeCert bytes)
      (some (((env.mesh.decodeCert bytes).map env.mesh.notAfter).or admitted)) := by
  rintro _ ⟨⟩ last isLast
  rw [mem_def.mp isLast]
  exact ⟨_, rfl, le_rfl⟩

theorem Backed.renewed {admitted : Option Nat} (backed : Backed cert (some admitted))
    {bytes : List Byte} (later : ∀ stored ∈ env.mesh.decodeCert bytes, ∀ last ∈ cert,
      env.mesh.notAfter last ≤ env.mesh.notAfter stored) :
    Backed cert (some (((env.mesh.decodeCert bytes).map env.mesh.notAfter).or admitted)) := by
  rintro _ ⟨⟩ last isLast
  cases decoded : env.mesh.decodeCert bytes with
  | none => exact backed admitted rfl last isLast
  | some stored => exact ⟨_, rfl, later stored decoded last isLast⟩

theorem startSession_admission (holds : pm.peers[idx]? = some peer) (established : Established)
    (peerAddr : SocketAddr) (viaRelay : Bool) (nowMs : Nat) :
    admissionOf (pm.startSession idx established peerAddr viaRelay nowMs).1.peers[idx]? =
      some peer.admittedCertNotAfter := by
  rw [startSession_peers holds, getElem?_set_self (List.getElem?_eq_some_iff.mp holds).1]
  rfl

/-! ### Inits -/

theorem rekeyInitCore_admission (pm : PeerManager env) (idx : Nat) (init : InitRead)
    (initEph : List Byte) (directSrc : SocketAddr) (viaRelay : Bool) :
    admissionOf (pm.rekeyInitCore idx init initEph directSrc viaRelay).1.peers[idx]? =
      admissionOf pm.peers[idx]? := by
  unfold rekeyInitCore
  split
  · rfl
  · rename_i peer holds
    split
    · rfl
    · split
      · rfl
      · rfl
      · rename_i epochs live
        split
        · rfl
        · split
          · rw [getElem?_modifyPeer_of_holds holds, holds, admissionOf_established live]
            rfl
          · rfl

theorem keepInit_admission (holds : pm.peers[idx]? = some peer) (init : InitRead)
    {f : Peer env → Peer env}
    (keeps : ∀ peer, (f peer).admittedCertNotAfter = peer.admittedCertNotAfter)
    (established : Established) (peerAddr : SocketAddr) (viaRelay : Bool) (nowMs : Nat) :
    admissionOf (((pm.keepInit idx init).modifyPeer idx f).startSession idx established peerAddr
      viaRelay nowMs).1.peers[idx]? =
        some ((env.mesh.decodeCert init.cert).map env.mesh.notAfter) := by
  have kept : (pm.keepInit idx init).peers[idx]? = some _ := getElem?_modifyPeer_of_holds holds _
  rw [startSession_admission (getElem?_modifyPeer_of_holds kept f), keeps]

def lastCert (cert : Option env.mesh.Cert) (accepted : Bool) (bytes : List Byte) :
    Option env.mesh.Cert :=
  if accepted then env.mesh.decodeCert bytes else cert

variable {init : InitRead} {viaRelay : Bool} {dg : List Byte} {moment : Moment} {src : SocketAddr}
  {presented : Option (List Byte)} {position : Nat} {payload : List Byte}

theorem acceptsInit_cold {nowSecs : Nat} (waiting : peer.state.isEstablished = false) :
    pm.acceptsInit peer init viaRelay nowSecs =
      !((peer.state.isHandshaking && keyBefore pm.localPub peer.pubkey) ||
        (!pm.certAdmits init.cert init.remoteStatic nowSecs ||
          !pm.acceptFreshInit peer init.initTs)) := by
  unfold acceptsInit
  cases state : peer.state with
  | established epochs => rw [state] at waiting; cases waiting
  | handshaking handshaking =>
    cases pm.certAdmits init.cert init.remoteStatic nowSecs <;>
      cases pm.acceptFreshInit peer init.initTs <;> simp [PeerState.isHandshaking]
  | idle =>
    cases pm.certAdmits init.cert init.remoteStatic nowSecs <;>
      cases pm.acceptFreshInit peer init.initTs <;> simp [PeerState.isHandshaking]

theorem coldInit_backed (waiting : peer.state.isEstablished = false)
    (holds : pm.peers[idx]? = some peer) {nowSecs : Nat} {out silent : DispatchOut}
    (started : admissionOf after.peers[idx]? =
      some ((env.mesh.decodeCert init.cert).map env.mesh.notAfter)) :
    Backed (lastCert cert (pm.acceptsInit peer init viaRelay nowSecs) init.cert)
      (admissionOf (if peer.state.isHandshaking && keyBefore pm.localPub peer.pubkey then
          (pm, silent)
        else if !pm.certAdmits init.cert init.remoteStatic nowSecs ||
            !pm.acceptFreshInit peer init.initTs then (pm, silent)
        else (after, out)).1.peers[idx]?) := by
  rw [acceptsInit_cold waiting]
  split
  · rw [holds, admissionOf_waiting waiting]
    exact backed_none
  · rename_i untied
    split
    · rw [holds, admissionOf_waiting waiting]
      exact backed_none
    · rename_i passes
      rw [started, Bool.eq_false_iff.mpr untied, Bool.eq_false_iff.mpr passes]
      exact backed_own init.cert

theorem dropSession_admission (pm : PeerManager env) (idx : Nat) :
    admissionOf (pm.dropSession idx).peers[idx]? = none := by
  unfold dropSession
  cases holds : pm.peers[idx]? with
  | none =>
    rw [holds]
    rfl
  | some peer =>
    rw [getElem?_modifyPeer_self, holds]
    rfl

theorem answerInit_backed (holds : pm.peers[idx]? = some peer) (src : SocketAddr)
    (init : InitRead) (moment : Moment) (backed : Backed cert (admissionOf (some peer)))
    (harmless : peer.state.isEstablished = true →
      pm.acceptsInit peer init false moment.nowSecs = false →
      ∀ stored ∈ env.mesh.decodeCert init.cert, ∀ last ∈ cert,
        env.mesh.notAfter last ≤ env.mesh.notAfter stored) :
    Backed (lastCert cert (pm.acceptsInit peer init false moment.nowSecs) init.cert)
      (admissionOf (pm.answerInit idx src init moment).1.peers[idx]?) := by
  have started := keepInit_admission holds init
    (f := fun peer => { peer with endpoint := some src, relay := false }) (fun _ => rfl)
    init.established src false moment.nowMs
  unfold answerInit
  rw [holds]
  dsimp only
  split
  · rename_i epochs live
    rw [admissionOf_established live] at backed
    split
    · rename_i relayed
      have declines : pm.acceptsInit peer init false moment.nowSecs = false := by
        simp [acceptsInit, live, relayed]
      rw [declines, holds, admissionOf_established live]
      exact backed
    · split
      · rw [dropSession_admission]
        exact backed_none
      · have renewed : admissionOf (pm.renewAdmission idx init.cert).peers[idx]? =
            some (((env.mesh.decodeCert init.cert).map env.mesh.notAfter).or
              peer.admittedCertNotAfter) := by
          rw [renewAdmission, getElem?_modifyPeer_of_holds holds]
          exact admissionOf_established live
        -- whether the Init is accepted or not, the admission is renewed
        have result : Backed
            (lastCert cert (pm.acceptsInit peer init false moment.nowSecs) init.cert)
            (some (((env.mesh.decodeCert init.cert).map env.mesh.notAfter).or
              peer.admittedCertNotAfter)) := by
          cases accepts : pm.acceptsInit peer init false moment.nowSecs with
          | true => exact backed_renewed init.cert _
          | false => exact backed.renewed (harmless (isEstablished_of_eq live) accepts)
        split
        · rw [rekeyInitCore_admission, renewed]
          exact result
        · rw [renewed]
          exact result
  · rename_i waiting
    exact coldInit_backed (by rw [waiting]; rfl) holds started
  · rename_i handshaking waiting
    exact coldInit_backed (by rw [waiting]; rfl) holds started

theorem relayedHandshakeInit_backed (holds : pm.peers[idx]? = some peer)
    (read : pm.readInit dg moment = some init) (own : init.remoteStatic = peer.pubkey)
    (backed : Backed cert (admissionOf (some peer)))
    (harmless : peer.state.isEstablished = true →
      pm.acceptsInit peer init true moment.nowSecs = true →
      ∀ presented ∈ env.mesh.decodeCert init.cert,
        ∃ limit ∈ peer.admittedCertNotAfter, env.mesh.notAfter presented ≤ limit) :
    Backed (lastCert cert (pm.acceptsInit peer init true moment.nowSecs) init.cert)
      (admissionOf (pm.relayedHandshakeInit idx dg moment).1.peers[idx]?) := by
  have started := keepInit_admission holds init
    (f := fun peer => { peer with relay := true }) (fun _ => rfl)
    init.established pm.serverAddr true moment.nowMs
  unfold relayedHandshakeInit
  rw [read, holds]
  dsimp only
  rw [if_neg (not_not.mpr own)]
  split
  · rename_i epochs live
    have kept : Backed (lastCert cert (pm.acceptsInit peer init true moment.nowSecs) init.cert)
        (some peer.admittedCertNotAfter) := by
      rw [admissionOf_established live] at backed
      cases accepts : pm.acceptsInit peer init true moment.nowSecs with
      | false => exact backed
      | true =>
        rintro _ ⟨⟩ presented isPresented
        exact harmless (isEstablished_of_eq live) accepts presented isPresented
    have same : admissionOf pm.peers[idx]? = some peer.admittedCertNotAfter := by
      rw [holds, admissionOf_established live]
    split
    · rw [same]
      exact kept
    · split
      · rw [dropSession_admission]
        exact backed_none
      · split
        · rw [rekeyInitCore_admission, getElem?_modifyPeer_of_holds holds]
          rw [← admissionOf_established live] at kept
          exact kept
        · rw [same]
          exact kept
  · rename_i waiting
    exact coldInit_backed (by rw [waiting]; rfl) holds started
  · rename_i handshaking waiting
    exact coldInit_backed (by rw [waiting]; rfl) holds started

/-! ### Responses -/

def certAfter (cert : Option env.mesh.Cert) (presented : Option (List Byte)) :
    Option env.mesh.Cert := presented.elim cert env.mesh.decodeCert

theorem certAfter_ite (accepted : Bool) (bytes : List Byte) :
    certAfter cert (if accepted = true then some bytes else none) =
      lastCert cert accepted bytes := by
  cases accepted <;> rfl

theorem completeHandshake_backed {handshaking : HandshakingState env}
    (holds : pm.peers[idx]? = some peer) (live : peer.state = .handshaking handshaking)
    (peerAddr : SocketAddr) (dg : List Byte) (viaRelay : Bool) (moment : Moment) :
    Backed (certAfter cert (pm.certOfResp peer dg viaRelay moment.nowSecs))
      (admissionOf (pm.completeHandshake idx peerAddr dg viaRelay moment).1.peers[idx]?) := by
  have reverted := getElem?_modifyPeer_of_holds holds fun peer => { peer with state := .idle }
  unfold completeHandshake certOfResp
  rw [holds]
  dsimp only
  rw [live]
  dsimp only
  cases HandshakeState.readResponse env handshaking.hs dg with
  | none =>
    rw [reverted]
    exact backed_none
  | some read =>
    obtain ⟨established, payload⟩ := read
    dsimp only [bind_some]
    cases pm.certAdmits payload peer.pubkey moment.nowSecs with
    | false =>
      change Backed _ (admissionOf (pm.modifyPeer idx _).peers[idx]?)
      rw [reverted]
      exact backed_none
    | true =>
      change Backed (env.mesh.decodeCert payload)
        (admissionOf (startSession _ _ _ _ _ _).1.peers[idx]?)
      have kept : ((pm.modifyPeer idx fun peer => { peer with state := .idle }).keepResp idx
          payload).peers[idx]? = some _ := getElem?_modifyPeer_of_holds reverted _
      rw [startSession_admission (getElem?_modifyPeer_of_holds kept _)]
      exact backed_own payload

theorem rekeyRespCore_backed (holds : pm.peers[idx]? = some peer)
    (live : peer.state = .established epochs) (dg : List Byte) (way : peer.relay = viaRelay)
    (moment : Moment) (backed : Backed cert (admissionOf (some peer))) :
    Backed (certAfter cert (pm.certOfResp peer dg viaRelay moment.nowSecs))
      (admissionOf (pm.rekeyRespCore idx dg viaRelay moment).1.peers[idx]?) := by
  rw [admissionOf_established live] at backed
  have taken := getElem?_modifyPeer_of_holds holds fun peer =>
    { peer with state := .established { epochs with rekey := none } }
  unfold rekeyRespCore certOfResp
  rw [holds]
  dsimp only
  rw [live]
  dsimp only
  rw [if_pos way]
  cases epochs.rekey with
  | none =>
    change Backed cert (admissionOf pm.peers[idx]?)
    rw [holds, admissionOf_established live]
    exact backed
  | some rekey =>
    dsimp only [bind_some]
    cases HandshakeState.readResponse env rekey.hs dg with
    | none =>
      change Backed cert (admissionOf (pm.modifyPeer idx _).peers[idx]?)
      rw [taken]
      exact backed
    | some read =>
      obtain ⟨established, payload⟩ := read
      dsimp only [bind_some]
      cases pm.certAdmits payload peer.pubkey moment.nowSecs with
      | false =>
        change Backed cert (admissionOf (pm.modifyPeer idx _).peers[idx]?)
        rw [taken]
        exact backed
      | true =>
        change Backed (env.mesh.decodeCert payload) (admissionOf (recordNewEpoch _ idx).peers[idx]?)
        have renewed : ((pm.modifyPeer idx fun peer =>
            { peer with state := .established { epochs with rekey := none } }).renewAdmission idx
              payload).peers[idx]? = some _ := getElem?_modifyPeer_of_holds taken _
        rw [recordNewEpoch_peers renewed rfl,
          getElem?_set_self (List.getElem?_eq_some_iff.mp renewed).1]
        exact backed_renewed payload _

/-! ### Everything else -/

/-- The admission stays as it was, or the session ends. -/
def Lapses (before after : Option (Option Nat)) : Prop := after = before ∨ after = none

theorem Lapses.trans {first second third : Option (Option Nat)} (early : Lapses first second)
    (late : Lapses second third) : Lapses first third := by
  rcases late with rfl | ended
  · exact early
  · exact Or.inr ended

theorem Lapses.backed {before later : Option (Option Nat)} (lapses : Lapses before later)
    (backed : Backed cert before) : Backed cert later := by
  rcases lapses with rfl | rfl
  · exact backed
  · exact backed_none

variable {occasion : Warrant}

theorem relearnEndpoint_admission (peer : Peer env) (src : SocketAddr) :
    admissionOf (some (peer.relearnEndpoint src)) = admissionOf (some peer) := by
  rcases peer.relearnEndpoint_cases src with same | ⟨addr, moved⟩
  · rw [same]
  · rw [moved]
    unfold admissionOf Peer.moveTo
    cases state : peer.state <;> simp [state, PeerState.isEstablished]

theorem Touch.lapses {touched : Peer env} (touch : Touch occasion pm peer touched)
    (noInit : ∀ init, ¬occasion.init init) (noResp : ∀ dg, ¬occasion.resp dg) :
    Lapses (admissionOf (some peer)) (admissionOf (some touched)) := by
  cases touch with
  | begins | escalates | retargets | resends | expires => exact Or.inr rfl
  | asks | advances | learns | buffers | flags => exact Or.inl rfl
  | detours init given => exact absurd given (noInit init)
  | renews cert nowSecs live given =>
    rcases given with ⟨init, given, _⟩ | ⟨dg, given⟩
    · exact absurd given (noInit init)
    · exact absurd given (noResp dg)
  | installs init _ _ _ given => exact absurd given (noInit init)
  | concludes dg _ given => exact absurd given (noResp dg)
  | reverts dg _ given => exact absurd given (noResp dg)
  | opens _ _ epochs _ live => exact Or.inl (admissionOf_established live).symm
  | roams _ src => exact Or.inl (relearnEndpoint_admission peer src)
  | seals _ _ epochs _ live => exact Or.inl (admissionOf_established live).symm
  | clocks _ _ _ epochs _ _ live => exact Or.inl (admissionOf_established live).symm

theorem pushPeer_admission {fresh : Peer env} (idle : fresh.state = .idle) (position : Nat) :
    admissionOf (pm.pushPeer fresh).peers[position]? = admissionOf pm.peers[position]? := by
  rcases pm.getElem?_pushPeer fresh position with kept | ⟨empty, added⟩
  · rw [kept]
  · rw [empty, added]
    simp [admissionOf, idle, PeerState.isEstablished]

theorem Quiet.lapses (quiet : Quiet occasion pm after) (noInit : ∀ init, ¬occasion.init init)
    (noResp : ∀ dg, ¬occasion.resp dg) (position : Nat) :
    Lapses (admissionOf pm.peers[position]?) (admissionOf after.peers[position]?) := by
  refine quiet.seat position (fun _ => Or.inl rfl) (fun _ _ touch => touch.lapses noInit noResp)
    ?_ ?_
  · exact fun _ _ _ => Or.inl rfl
  · exact fun _ _ => Or.inr rfl

theorem Moves.lapses (moves : Moves occasion pm after) (noInit : ∀ init, ¬occasion.init init)
    (noResp : ∀ dg, ¬occasion.resp dg) (position : Nat) :
    Lapses (admissionOf pm.peers[position]?) (admissionOf after.peers[position]?) := by
  induction moves with
  | refl => exact Or.inl rfl
  | tail _ quiet ih =>
    exact ih.trans (quiet.lapses noInit noResp position)

theorem Course.lapses (course : Course occasion pm after) (noInit : ∀ init, ¬occasion.init init)
    (noResp : ∀ dg, ¬occasion.resp dg) (position : Nat) :
    Lapses (admissionOf pm.peers[position]?) (admissionOf after.peers[position]?) := by
  obtain ⟨quiet, moves, rfl | starts⟩ := course
  · exact moves.lapses noInit noResp position
  · cases starts with
    | responds _ _ init _ _ _ _ _ given => exact absurd given (noInit init)
    | completes _ _ _ dg _ _ _ _ _ _ _ given => exact absurd given (noResp dg)
    | rekeys _ _ _ _ dg _ _ _ _ _ _ _ given => exact absurd given (noResp dg)

theorem Stepped.lapses {event : Event} (stepped : pm.Stepped (.own event) after)
    (stays : pm.Stays idx (.own event)) (noDatagram : ∀ src dg moment, event ≠ .udp src dg moment) :
    Lapses (admissionOf pm.peers[idx]?)
      (admissionOf after.peers[pm.follow idx (.own event)]?) := by
  cases stepped with
  | course _ _ kept course =>
    rw [follow_of_ne kept]
    cases event with
    | udp src dg moment => exact absurd rfl (noDatagram src dg moment)
    | tun | tick | addPeer | admitMember | removePeer | drainNewEpochs =>
      exact course.lapses (fun _ => id) (fun _ => id) idx
  | added pubkey endpoint => exact Or.inl (pushPeer_admission rfl idx)
  | removed pubkey removed _ found setting peers =>
    have apart : idx ≠ removed := fun same => stays (same ▸ found)
    rw [getElem?_follow_of_removed found peers apart]
    exact Or.inl rfl
  | drained => exact Or.inl rfl
  | ignored _ unknown =>
    rw [follow_of_unknown unknown]
    exact Or.inl rfl

/-! ### Datagrams -/

/-- A relayed Init that is accepted presents no certificate beyond what the session is admitted
for, and a direct one that is not accepted none that ends before the last. -/
def Lasting (pm : PeerManager env) (idx : Nat) (cert : Option env.mesh.Cert) (src : SocketAddr)
    (dg : List Byte) (moment : Moment) : Prop :=
  ∀ arrived ∈ pm.arrival src dg, ∀ init ∈ pm.readInit arrived.2 moment, ∀ live ∈ pm.peers[idx]?,
    live.state.isEstablished = true → init.remoteStatic = live.pubkey →
    ∀ presented ∈ env.mesh.decodeCert init.cert,
      (arrived.1.isSome = true → pm.acceptsInit live init true moment.nowSecs = true →
        ∃ limit ∈ live.admittedCertNotAfter, env.mesh.notAfter presented ≤ limit) ∧
      (arrived.1.isSome = false → pm.acceptsInit live init false moment.nowSecs = false →
        ∀ last ∈ cert, env.mesh.notAfter last ≤ env.mesh.notAfter presented)

instance (pm : PeerManager env) (idx : Nat) (cert : Option env.mesh.Cert) (src : SocketAddr)
    (dg : List Byte) (moment : Moment) : Decidable (pm.Lasting idx cert src dg moment) :=
  inferInstanceAs (Decidable (∀ arrived ∈ pm.arrival src dg, _))

/-- A direct Init keeps every admission backed. -/
theorem handleHandshakeInit_backed (backed : Backed cert (admissionOf pm.peers[idx]?))
    (harmless : ∀ init ∈ pm.readInit dg moment, ∀ live ∈ pm.peers[idx]?,
      live.state.isEstablished = true → init.remoteStatic = live.pubkey →
      pm.acceptsInit live init false moment.nowSecs = false →
      ∀ presented ∈ env.mesh.decodeCert init.cert, ∀ last ∈ cert,
        env.mesh.notAfter last ≤ env.mesh.notAfter presented) :
    Backed (certAfter cert (pm.certOfInit idx none dg moment))
      (admissionOf (pm.handleHandshakeInit src dg moment).1.peers[idx]?) := by
  unfold handleHandshakeInit certOfInit
  cases read : pm.readInit dg moment with
  | none => exact backed
  | some init =>
    dsimp only [bind_some]
    have moves : Moves .none pm (pm.admitInitiator init moment).1 :=
      admitInitiator_moves init moment
    have kept := (moves.lapses (fun _ => id) (fun _ => id) idx).backed backed
    rcases found : pm.admitInitiator init moment with ⟨admitted, position⟩
    rw [found] at kept
    cases position with
    | none =>
      rw [if_neg (fun both => nomatch both.1)]
      exact kept
    | some position =>
      dsimp only
      obtain ⟨moves, membership, own, had⟩ : Moves .none pm admitted ∧ _ :=
        admitInitiator_spec found
      by_cases here : position = idx
      · subst here
        cases holds : admitted.peers[position]? with
        | none =>
          rw [if_neg (by simp), answerInit, holds]
          dsimp only [certAfter, elim_none]
          rw [holds]
          exact backed_none
        | some peer =>
          rw [holds] at kept
          simp only [any_some, true_and]
          rw [certAfter_ite]
          refine answerInit_backed holds src init moment kept fun live declined => ?_
          rw [acceptsInit_congr membership moves.setting_eq] at declined
          exact harmless init read peer (had peer holds live) live (own peer holds).symm declined
      · have course : CourseAt .any position admitted
            (admitted.answerInit position src init moment).1 :=
          answerInit_course (readInit_genuine read) trivial own (fun _ => trivial) src
            fun _ _ _ _ => trivial
        rw [if_neg (fun both => here (some.inj both.1)),
          course.only.elsewhere idx (Ne.symm here)]
        exact kept

theorem backed_of_courseAt (course : CourseAt .any position pm after)
    (backed : Backed cert (admissionOf pm.peers[idx]?))
    (here : position = idx → Backed (certAfter cert presented) (admissionOf after.peers[idx]?)) :
    Backed (certAfter cert (if some position = some idx then presented else none))
      (admissionOf after.peers[idx]?) := by
  by_cases same : position = idx
  · rw [if_pos (congrArg some same)]
    exact here same
  · rw [if_neg (fun isIdx => same (some.inj isIdx)),
      course.only.elsewhere idx (Ne.symm same)]
    exact backed

theorem handleHandshakeResp_backed (src : SocketAddr) (dg : List Byte) (moment : Moment)
    (backed : Backed cert (admissionOf pm.peers[idx]?)) :
    Backed (certAfter cert (if pm.respondent src = some idx then
        (pm.peers[idx]?).bind fun peer => pm.certOfResp peer dg false moment.nowSecs else none))
      (admissionOf (pm.handleHandshakeResp src dg moment).1.peers[idx]?) := by
  rw [handleHandshakeResp_eq, respondent]
  cases found : pm.position (rekeyingAt src) with
  | some position =>
    obtain ⟨peer, holds, rekeying⟩ := position_eq_some found
    obtain ⟨direct, epochs, live⟩ := of_rekeyingAt rekeying
    refine backed_of_courseAt (rekeyRespCore_course trivial moment fun other isOther => ?_)
      backed ?_
    · cases holds.symm.trans isOther
      exact direct
    rintro rfl
    rw [holds] at backed
    rw [holds, bind_some]
    exact rekeyRespCore_backed holds live dg direct moment backed
  | none =>
    cases waiting : pm.position (handshakingAt src) with
    | none => exact backed
    | some position =>
      refine backed_of_courseAt (completeHandshake_course _ _ trivial ..) backed ?_
      rintro rfl
      obtain ⟨peer, holds, isWaiting⟩ := position_eq_some waiting
      rw [holds, bind_some]
      have handshakes := (Bool.and_eq_true _ _ ▸ isWaiting).2
      cases live : peer.state with
      | handshaking handshaking => exact completeHandshake_backed holds live src dg false moment
      | idle => rw [live] at handshakes; cases handshakes
      | established => rw [live] at handshakes; cases handshakes

/-! ### Payloads of the relay -/

/-- A peer before and after the relay flag is set: the same in all that admission looks at. -/
structure Flagged (pm : PeerManager env) (idx : Nat) (peer flagged : Peer env) : Prop where
  holds : (pm.flagRelay idx).peers[idx]? = some flagged
  state : flagged.state = peer.state
  pubkey : flagged.pubkey = peer.pubkey
  admission : admissionOf (some flagged) = admissionOf (some peer)
  acceptsInit : ∀ init viaRelay nowSecs,
    (pm.flagRelay idx).acceptsInit flagged init viaRelay nowSecs =
      pm.acceptsInit peer init viaRelay nowSecs
  certOfResp : ∀ message viaRelay nowSecs,
    (pm.flagRelay idx).certOfResp flagged message viaRelay nowSecs =
      pm.certOfResp peer message viaRelay nowSecs
  live : peer.state.isEstablished = true → flagged = peer

theorem flagRelay_flagged (holds : pm.peers[idx]? = some peer) :
    ∃ flagged, Flagged pm idx peer flagged := by
  have accepts : (pm.flagRelay idx).acceptsInit = pm.acceptsInit := acceptsInit_congr rfl rfl
  have admits : (pm.flagRelay idx).certAdmits = pm.certAdmits := certAdmits_congr rfl
  refine ⟨_, getElem?_modifyPeer_of_holds holds _, rfl, rfl, rfl, ?_, ?_,
    fun live => by simp [live]⟩
  · intro init viaRelay nowSecs
    rw [accepts]
    unfold acceptsInit acceptFreshInit
    cases state : peer.state with
    | established epochs => simp [PeerState.isEstablished]
    | handshaking | idle => rfl
  · intro message viaRelay nowSecs
    unfold certOfResp
    rw [admits]
    cases state : peer.state with
    | established epochs => simp [PeerState.isEstablished]
    | handshaking | idle => rfl

theorem relayedHandshakeResp_backed (holds : pm.peers[idx]? = some peer) (dg : List Byte)
    (moment : Moment) (backed : Backed cert (admissionOf (some peer))) :
    Backed (certAfter cert (pm.certOfResp peer dg true moment.nowSecs))
      (admissionOf (pm.relayedHandshakeResp idx dg moment).1.peers[idx]?) := by
  unfold relayedHandshakeResp
  rw [holds]
  dsimp only
  split
  · rename_i epochs live
    split
    · rename_i rekeying
      rw [Bool.and_eq_true] at rekeying
      exact rekeyRespCore_backed holds live dg rekeying.2 moment backed
    · rename_i other
      have refused : pm.certOfResp peer dg true moment.nowSecs = none := by
        unfold certOfResp
        rw [live]
        dsimp only
        split
        · rename_i relayed
          cases inFlight : epochs.rekey with
          | none => rfl
          | some rekey => exact absurd (by simp [inFlight, relayed]) other
        · rfl
      rw [refused, holds]
      exact backed
  · rename_i handshaking live
    exact completeHandshake_backed holds live pm.serverAddr dg true moment
  · rename_i waiting
    rw [holds, admissionOf_waiting (by rw [waiting]; rfl)]
    exact backed_none

theorem certOfMessage_other {node : Option Nat} {message : List Byte}
    (notInit : message.head? ≠ some PacketType.handshakeInit.toByte)
    (notResp : message.head? ≠ some PacketType.handshakeResp.toByte) :
    pm.certOfMessage idx src node message moment = none := by
  unfold certOfMessage
  rw [if_neg notInit, if_neg notResp]

theorem backed_of_quiet (nothing : presented = none) (moves : Moves (.quiet True) pm after)
    (backed : Backed cert (admissionOf pm.peers[idx]?)) :
    Backed (certAfter cert presented) (admissionOf after.peers[idx]?) := by
  rw [nothing]
  exact (moves.lapses (fun _ => id) (fun _ => id) idx).backed backed

/-- A relayed Init for a live session brings no certificate beyond what it is admitted for. -/
def RelayHarmless (pm : PeerManager env) (idx : Nat) (payload : List Byte) (moment : Moment) :
    Prop :=
  ∀ init ∈ pm.readInit payload moment, ∀ live ∈ pm.peers[idx]?,
    live.state.isEstablished = true → init.remoteStatic = live.pubkey →
    pm.acceptsInit live init true moment.nowSecs = true →
    ∀ presented ∈ env.mesh.decodeCert init.cert,
      ∃ limit ∈ live.admittedCertNotAfter, env.mesh.notAfter presented ≤ limit

/-- So does an Init over the relay that is harmless. -/
theorem relayedInit_backed (found : pm.byNode node = some position)
    (backed : Backed cert (admissionOf pm.peers[idx]?))
    (harmless : pm.RelayHarmless idx payload moment) :
    Backed (certAfter cert (pm.certOfInit idx (some node) payload moment)) (admissionOf
      ((pm.flagRelay position).relayedHandshakeInit position payload moment).1.peers[idx]?) := by
  have marked : Moves .none pm (pm.flagRelay position) := flagRelay_moves position
  have kept := (marked.lapses (fun _ => id) (fun _ => id) idx).backed backed
  unfold certOfInit
  dsimp only
  rw [found]
  cases read : pm.readInit payload moment with
  | none =>
    have unread : (pm.flagRelay position).readInit payload moment = none := read
    rw [relayedHandshakeInit, unread]
    exact kept
  | some init =>
    have readToo : (pm.flagRelay position).readInit payload moment = some init := read
    rw [bind_some]
    by_cases here : position = idx
    · subst here
      cases holds : pm.peers[position]? with
      | none =>
        have absent : (pm.flagRelay position).peers[position]? = none := by
          rw [flagRelay, getElem?_modifyPeer_self, holds]
          rfl
        rw [relayedHandshakeInit, readToo, absent]
        rw [absent]
        exact backed_none
      | some peer =>
        obtain ⟨flagged, same⟩ := flagRelay_flagged holds
        rw [same.holds] at kept
        by_cases own : init.remoteStatic = peer.pubkey
        · simp only [any_some, own, decide_true, Bool.true_and, true_and]
          rw [certAfter_ite, ← same.acceptsInit]
          refine relayedHandshakeInit_backed same.holds readToo (own.trans same.pubkey.symm) kept ?_
          intro live accepted presented isPresented
          have alive : peer.state.isEstablished = true := same.state ▸ live
          rw [same.live alive]
          exact harmless init read peer holds alive own (same.acceptsInit .. ▸ accepted) presented
            isPresented
        · have refused : (pm.flagRelay position).relayedHandshakeInit position payload moment =
              (pm.flagRelay position, .none) := by
            rw [relayedHandshakeInit, readToo, same.holds]
            exact if_pos fun isOwn => own (isOwn.trans same.pubkey)
          rw [if_neg (by simp [own]), refused, same.holds]
          exact kept
    · have course : CourseAt .any position (pm.flagRelay position)
          ((pm.flagRelay position).relayedHandshakeInit position payload moment).1 :=
        relayedHandshakeInit_course (fun _ _ => trivial) fun _ _ _ => trivial
      rw [if_neg (fun both => here (some.inj both.1)),
        course.only.elsewhere idx (Ne.symm here)]
      exact kept

theorem relayedResp_backed (backed : Backed cert (admissionOf pm.peers[idx]?)) :
    Backed (certAfter cert (if some position = some idx then
        (pm.peers[idx]?).bind fun peer => pm.certOfResp peer payload true moment.nowSecs else none))
      (admissionOf
        ((pm.flagRelay position).relayedHandshakeResp position payload moment).1.peers[idx]?) := by
  have marked : Moves .none pm (pm.flagRelay position) := flagRelay_moves position
  have kept := (marked.lapses (fun _ => id) (fun _ => id) idx).backed backed
  refine backed_of_courseAt (relayedHandshakeResp_course _ trivial _) kept ?_
  rintro rfl
  cases holds : pm.peers[position]? with
  | none =>
    have absent : (pm.flagRelay position).peers[position]? = none := by
      rw [flagRelay, getElem?_modifyPeer_self, holds]
      rfl
    rw [relayedHandshakeResp, absent]
    rw [absent]
    exact backed_none
  | some peer =>
    obtain ⟨flagged, same⟩ := flagRelay_flagged holds
    rw [same.holds] at kept
    rw [bind_some, ← same.certOfResp]
    exact relayedHandshakeResp_backed same.holds payload moment kept

theorem onRelayed_backed (backed : Backed cert (admissionOf pm.peers[idx]?))
    (harmless : pm.RelayHarmless idx payload moment) :
    Backed (certAfter cert (pm.certOfMessage idx src (some node) payload moment))
      (admissionOf (pm.onRelayed node payload moment).1.peers[idx]?) := by
  cases head : payload.head? with
  | none =>
    rw [onRelayed_of_none (Or.inl head),
      certOfMessage_other (by rw [head]; nofun) (by rw [head]; nofun)]
    exact backed
  | some kind =>
    cases found : pm.byNode node with
    | none =>
      have nothing : pm.certOfMessage idx src (some node) payload moment = none := by
        unfold certOfMessage certOfInit
        simp [found]
      rw [onRelayed_of_none (Or.inr found), nothing]
      exact backed
    | some position =>
      rw [onRelayed_eq head found]
      split
      · rename_i isInit
        rw [certOfMessage, if_pos (head.trans (congrArg some isInit))]
        exact relayedInit_backed found backed harmless
      · rename_i notInit
        have noInit : payload.head? ≠ some PacketType.handshakeInit.toByte :=
          fun same => notInit (some.inj (head.symm.trans same))
        split
        · rename_i isResp
          have named : (some node).elim (pm.respondent src) pm.byNode = some position := found
          rw [certOfMessage, if_neg noInit, if_pos (head.trans (congrArg some isResp)), named]
          exact relayedResp_backed backed
        · rename_i notResp
          refine backed_of_quiet (certOfMessage_other noInit ?_) ?_ backed
          · exact fun same => notResp (some.inj (head.symm.trans same))
          · refine (flagRelay_moves position).trans ?_
            split
            · exact relayedGossip_moves trivial ..
            · exact relayedData_moves _ trivial _ fun _ => trivial

/-! ### Events -/

theorem onRdv_backed {client : env.rendezvous.Client} (connected : pm.rendezvous = some client)
    (present : dg ≠ []) (backed : Backed cert (admissionOf pm.peers[idx]?))
    (lasting : pm.Lasting idx cert (env.rendezvous.serverAddr client) dg moment) :
    Backed (certAfter cert (pm.acceptedCert idx (env.rendezvous.serverAddr client) dg moment))
      (admissionOf (pm.onRdv dg moment).1.peers[idx]?) := by
  unfold Lasting arrival at lasting
  unfold acceptedCert arrival onRdv
  rw [if_neg present, connected] at lasting ⊢
  dsimp only at lasting ⊢
  rw [if_pos rfl] at lasting ⊢
  cases parsed : env.rendezvous.parse client dg with
  | peerCandidate node addr record =>
    exact backed_of_quiet rfl (onPeerCandidate_moves node addr record moment) backed
  | punchTo node addr => exact backed_of_quiet rfl (onPunchTo_moves node addr moment) backed
  | notFound => exact backed
  | ignored => exact backed
  | relayed node payload =>
    rw [parsed] at lasting
    refine onRelayed_backed backed fun init read live holds alive own accepted => ?_
    intro presented isPresented
    exact (lasting _ rfl init read live holds alive own presented isPresented).1 rfl accepted

/-- A datagram keeps the admission backed by the last certificate. -/
theorem udp_backed (backed : Backed cert (admissionOf pm.peers[idx]?))
    (lasting : pm.Lasting idx cert src dg moment) :
    Backed (certAfter cert (pm.acceptedCert idx src dg moment))
      (admissionOf (pm.step (.udp src dg moment)).peers[idx]?) := by
  change Backed _ (admissionOf
    (((pm.onUdpDispatch src dg moment).map Prod.fst).getD pm).peers[idx]?)
  unfold onUdpDispatch
  split
  · exact backed
  · rename_i kind rest
    split
    · rename_i server
      obtain ⟨client, connected⟩ := isSome_iff_exists.mp server.1
      have isServer : src = env.rendezvous.serverAddr client := by
        rw [server.2, serverAddr, connected]
      subst isServer
      exact onRdv_backed connected (cons_ne_nil kind rest) backed lasting
    · rename_i elsewhere
      have arrives : pm.arrival src (kind :: rest) = some (none, kind :: rest) :=
        arrival_of_elsewhere elsewhere
      have head : (kind :: rest).head? = some kind := rfl
      unfold Lasting at lasting
      unfold acceptedCert
      rw [arrives] at lasting
      rw [arrives, bind_some]
      dsimp only
      split
      · rename_i isInit
        rw [certOfMessage, if_pos (head.trans (congrArg some isInit))]
        refine handleHandshakeInit_backed backed fun init read live holds alive own declined => ?_
        intro presented isPresented
        exact (lasting _ rfl init read live holds alive own presented isPresented).2 rfl declined
      · rename_i notInit
        have noInit : (kind :: rest).head? ≠ some PacketType.handshakeInit.toByte :=
          fun same => notInit (some.inj same)
        split
        · rename_i isResp
          rw [certOfMessage, if_neg noInit, if_pos (head.trans (congrArg some isResp))]
          exact handleHandshakeResp_backed src _ moment backed
        · rename_i notResp
          have noResp : (kind :: rest).head? ≠ some PacketType.handshakeResp.toByte :=
            fun same => notResp (some.inj same)
          refine backed_of_quiet (certOfMessage_other noInit noResp) ?_ backed
          split
          · exact onGossip_moves trivial ..
          · cases handled : pm.handleDataOrControl src (kind :: rest) moment.nowMs with
            | none => exact .refl
            | some result =>
              exact handleDataOrControl_moves src trivial moment.nowMs handled fun _ => trivial

/-! ### The sweep -/

def Live (pm : PeerManager env) (idx : Nat) : Prop :=
  ∃ peer, pm.peers[idx]? = some peer ∧ peer.state.isEstablished = true

theorem live_iff : pm.Live idx ↔ admissionOf pm.peers[idx]? ≠ none := by
  unfold Live admissionOf
  cases pm.peers[idx]? with
  | none => simp
  | some peer => cases live : peer.state.isEstablished <;> simp [live]

instance : Decidable (pm.Live idx) := decidable_of_iff' _ live_iff

theorem Touch.live {touched : Peer env} (touch : Touch occasion pm peer touched)
    (live : peer.state.isEstablished = true) : touched.state.isEstablished = true := by
  cases touch with
  | begins _ idle => rw [idle] at live; cases live
  | asks | advances | learns | buffers | flags | detours | renews => exact live
  | installs | concludes | opens | seals | clocks => rfl
  | roams _ src =>
    have same := relearnEndpoint_admission peer src
    unfold admissionOf at same
    rw [bind_some, bind_some, if_pos live] at same
    by_contra ended
    rw [if_neg ended] at same
    cases same
  | reverts _ _ _ state => rw [state] at live; cases live
  | escalates _ _ state => rw [state] at live; cases live
  | retargets _ _ state => rw [state] at live; cases live
  | resends _ _ _ state => rw [state] at live; cases live
  | expires _ _ state => rw [state] at live; cases live

theorem Quiet.live (quiet : Quiet occasion pm after) (kept : ¬occasion.drop idx) :
    pm.Live idx → after.Live idx := by
  unfold Live
  refine quiet.seat idx (fun _ => id) ?_ ?_ fun given => absurd given kept
  · rintro _ touched touch ⟨_, ⟨⟩, live⟩
    exact ⟨touched, rfl, touch.live live⟩
  · rintro _ _ _ ⟨_, ⟨⟩, _⟩

theorem Moves.live (moves : Moves occasion pm after) (kept : ¬occasion.drop idx)
    (live : pm.Live idx) : after.Live idx := by
  induction moves with
  | refl => exact live
  | tail _ quiet ih => exact quiet.live kept ih

theorem foldl_dropSession_ended {stale : List Nat} (member : idx ∈ stale) :
    ¬(stale.foldl dropSession pm).Live idx := by
  -- a session that has been dropped stays away
  have remains (rest : List Nat) (pm : PeerManager env) (ended : ¬pm.Live idx) :
      ¬(rest.foldl dropSession pm).Live idx := by
    induction rest generalizing pm with
    | nil => exact ended
    | cons position rest ih =>
      refine ih _ ?_
      have quiet : Quiet { Warrant.none with drop := (· = position) } pm
          (pm.dropSession position) :=
        .drop position rfl
      have lapses := quiet.lapses (fun _ => id) (fun _ => id) idx
      rw [live_iff, not_not] at ended ⊢
      rw [ended] at lapses
      exact lapses.elim id id
  induction stale generalizing pm with
  | nil => cases member
  | cons position rest ih =>
    rcases mem_cons.mp member with rfl | later
    · refine remains rest _ ?_
      rw [live_iff, not_not]
      exact dropSession_admission pm idx
    · exact ih later

theorem tickDispatch_live_iff (moment : Moment) (live : pm.Live idx) :
    (pm.tickDispatch moment).1.Live idx ↔ ¬pm.Sweeps moment idx := by
  refine ⟨fun remains sweeps => ?_, fun spared => (tickDispatch_moves moment).live spared live⟩
  obtain ⟨driven, late, early, gossips, swept⟩ := pm.tickDispatch_sweeps moment
  obtain ⟨membership, peer, joined, due, holds, _, invalid⟩ := sweeps
  have unswept := early.unswept
  have still := gossips.unswept
  have lasts : (driven.digested moment).Live idx := early.live id live
  obtain ⟨found, there, alive⟩ := gossips.live id lasts
  obtain ⟨middle, between, lives, pubkey, admitted⟩ := still.sessions idx found there alive
  obtain ⟨old, had, _, pubkey', admitted'⟩ := unswept.sessions idx middle between lives
  cases holds.symm.trans had
  have nowJoined : late.membership =
      some (env.mesh.tickDigest membership moment.nowMs pm.obfOn).1 := by
    rw [still.membership, digested, unswept.membership, unswept.obfOn, joined]
    rfl
  rw [swept, sweepCerts, nowJoined] at remains
  dsimp only at remains
  have isDue : ¬moment.nowMs - late.lastCertSweepMs < late.rekeyIntervalMs := by
    rw [still.lastCertSweepMs, still.rekeyIntervalMs]
    exact not_lt.mpr (unswept.lastCertSweepMs ▸ unswept.rekeyIntervalMs ▸ due)
  rw [if_neg isDue] at remains
  refine foldl_dropSession_ended (mem_filter.mpr ⟨?_, ?_⟩) remains
  · exact mem_range.mpr (List.getElem?_eq_some_iff.mp there).1
  · rw [there, any_some, alive, ← pubkey, ← pubkey', ← admitted, ← admitted', invalid]
    rfl

theorem sweeps_iff {membership : env.mesh.Membership} (joined : pm.membership = some membership)
    (holds : pm.peers[idx]? = some peer) (live : peer.state.isEstablished = true) :
    pm.Sweeps moment idx ↔ pm.rekeyIntervalMs ≤ moment.nowMs - pm.lastCertSweepMs ∧
      env.mesh.memberOrAdmittedCertValid (env.mesh.tickDigest membership moment.nowMs pm.obfOn).1
        peer.pubkey peer.admittedCertNotAfter moment.nowSecs = false := by
  constructor
  · rintro ⟨found, swept, isFound, due, isSwept, _, invalid⟩
    cases isFound.symm.trans joined
    cases isSwept.symm.trans holds
    exact ⟨due, invalid⟩
  · rintro ⟨due, invalid⟩
    exact ⟨membership, peer, joined, due, holds, live, invalid⟩

/-! ### One peer through a run -/

theorem admitMember_getElem? {pubkey : Key} {endpoints : List SocketAddr} {nowMs : Nat}
    (holds : pm.peers[idx]? = some peer) :
    (pm.admitMember pubkey endpoints nowMs).peers[idx]? = some peer := by
  unfold admitMember
  split
  · exact holds
  · exact (getElem?_append_left (List.getElem?_eq_some_iff.mp holds).1).trans holds

theorem installEstablishedSession_getElem? {peerPk : Key} (established : Established)
    (endpoint : Option SocketAddr) (holds : pm.peers[idx]? = some peer)
    (other : peer.pubkey ≠ peerPk) :
    (pm.installEstablishedSession peerPk established endpoint).peers[idx]? = some peer := by
  unfold installEstablishedSession
  extract_lets admitted
  have kept : admitted.peers[idx]? = some peer := by
    unfold admitted
    split
    · exact holds
    · exact admitMember_getElem? holds
  split
  · exact kept
  · rename_i position found
    obtain ⟨first, isFirst, named⟩ := position_eq_some found
    have apart : idx ≠ position := by
      rintro rfl
      cases kept.symm.trans isFirst
      exact other (of_decide_eq_true named)
    exact ((only_of_modify rfl).elsewhere idx apart).trans kept

/-- A manager, a peer in it and the last certificate the peer had accepted. -/
structure Bearer (env : Primitives) where
  pm : PeerManager env
  idx : Nat
  cert : Option env.mesh.Cert

namespace Bearer

def watched (bearer : Bearer env) : Option (Peer env) := bearer.pm.peers[bearer.idx]?

def start (config : Config env) (idx : Nat) : Bearer env := ⟨new config, idx, none⟩

def step (bearer : Bearer env) (event : ShardEvent) : Bearer env where
  pm := bearer.pm.shardStep event
  idx := bearer.pm.follow bearer.idx event
  cert :=
    match event with
    | .own (.udp src dg moment) =>
      certAfter bearer.cert (bearer.pm.acceptedCert bearer.idx src dg moment)
    | .own _ => bearer.cert
    | .install peerPk _ _ =>
      if bearer.watched.any fun peer => decide (peer.pubkey ≠ peerPk) then bearer.cert else none

def Lasting (bearer : Bearer env) : ShardEvent → Prop
  | .own (.udp src dg moment) => bearer.pm.Lasting bearer.idx bearer.cert src dg moment
  | event => bearer.pm.Stays bearer.idx event

instance (bearer : Bearer env) (event : ShardEvent) : Decidable (bearer.Lasting event) := by
  unfold Bearer.Lasting
  split
  · infer_instance
  · unfold Stays
    split <;> infer_instance

/-- The admission of the peer is backed by its last certificate. -/
def Sound (bearer : Bearer env) : Prop := Backed bearer.cert (admissionOf bearer.watched)

variable {bearer : Bearer env} {event : ShardEvent}

/-- An event keeps it. -/
theorem Sound.step (sound : bearer.Sound) (lasting : bearer.Lasting event) :
    (bearer.step event).Sound := by
  unfold Sound at sound
  cases event with
  | install peerPk established endpoint =>
    change Backed (if bearer.watched.any _ then bearer.cert else none) _
    split
    · rename_i other
      cases holds : bearer.watched with
      | none => simp [holds] at other
      | some peer =>
        rw [holds] at sound other
        have apart : peer.pubkey ≠ peerPk := of_decide_eq_true other
        have same : (bearer.step (.install peerPk established endpoint)).watched = some peer :=
          installEstablishedSession_getElem? established endpoint holds apart
        rw [same]
        exact sound
    · nofun
  | own event =>
    have quiet (stays : bearer.pm.Stays bearer.idx (.own event))
        (noDatagram : ∀ src dg moment, event ≠ .udp src dg moment) :
        Backed bearer.cert (admissionOf (bearer.step (.own event)).watched) :=
      ((bearer.pm.shardStep_stepped (.own event)).lapses stays noDatagram).backed sound
    cases event with
    | udp src dg moment => exact udp_backed sound lasting
    | tun | tick | addPeer | admitMember | removePeer | drainNewEpochs => exact quiet lasting nofun

/-- So it holds after every run. -/
theorem run_sound (config : Config env) (idx : Nat) (events : List ShardEvent)
    (lasting : Machine.Admissible Bearer.step Lasting (start config idx) events) :
    (Machine.run Bearer.step (start config idx) events).Sound :=
  Machine.run_invariant Bearer.step Lasting Sound (fun _ _ sound benign => sound.step benign) _
    events nofun lasting

end Bearer

end PeerManager

end Yip
