/-
This file models how a member of the mesh stays registered at its relay (`relay_client.rs`).
-/

import Yip.Rdv.Frames
import Yip.Members.History

namespace Yip.Rdv

open Crypto Members Framing

/-- What a registration is signed with, as it was when the client began. -/
structure RegistrationSigner where
  ownCert : Cert
  ownEndpoints : List Members.SocketAddr
  signPriv : Bytes 32

def registrationSigner (m : Membership) : RegistrationSigner :=
  ⟨m.ownCert, m.ownEndpoints, m.signPriv⟩

section Build

variable (suite : Suite) (sip : Wire.Sip) (obfKey : Bytes 16)

def RegistrationSigner.sign (signer : RegistrationSigner) (seq : Nat) : Option Record :=
  buildSignedRecord suite signer.ownCert signer.ownEndpoints seq signer.signPriv

def frameDatagram (datagram : List Byte) : Except String (List Byte) :=
  if datagram.length < 65536 ∧ datagram.length ≤ tlsFrameMax then .ok (frameBytes datagram)
  else .error "datagram too large for TLS frame"

def frameRegistration (message : Message) (nonce : Bytes 8) : Option (List Byte) := do
  let env ← envelope sip obfKey message nonce 0
  (frameDatagram env).toOption

def buildRegister (node : NodeId) (counter : Nat) (nonce : Bytes 8) : Option (List Byte) :=
  frameRegistration sip obfKey
    (.registerAuth node counter (computeRegisterMac suite obfKey node counter)) nonce

def buildRegisterSigned (record : Record) (nonce : Bytes 8) : Option (List Byte) :=
  frameRegistration sip obfKey (.registerSigned record) nonce

def buildRegistrationFrame (node : NodeId) (counter : Nat) (signer : Option RegistrationSigner)
    (nonce : Bytes 8) : Option (List Byte) :=
  match signer with
  | some signer => do
    let record ← signer.sign suite counter
    buildRegisterSigned sip obfKey record nonce
  | none => buildRegister suite sip obfKey node counter nonce

end Build

def nextCounter (last wallMs : Nat) : Nat := saturatingAdd (max last wallMs) 1

/-! ### The two threads -/

inductive RelayLink where
  | down
  | up
  | dead
  deriving DecidableEq

structure Sent where
  frame : List Byte
  held : Cert
  deriving DecidableEq

/-- A member with its relay client, and the frames the client sent. -/
structure Node where
  history : History
  selfNode : NodeId
  signer : Option RegistrationSigner
  counter : Nat
  link : RelayLink
  sent : List Sent

inductive NodeEvent where
  | directory (event : Members.Event)
  | connect (wallMs : Nat) (nonce : Bytes 8)
  | keepalive (wallMs : Nat) (nonce : Bytes 8)
  | disconnect

namespace Node

section Steps

variable (suite : Suite) (skew : Nat) (sip : Wire.Sip) (obfKey : Bytes 16)

def start (m : Membership) (selfNode : NodeId) (wallMs : Nat) : Node :=
  ⟨.start m, selfNode, some (registrationSigner m), wallMs, .down, []⟩

def register (node : Node) (wallMs : Nat) (nonce : Bytes 8) : Node :=
  let counter := nextCounter node.counter wallMs
  match buildRegistrationFrame suite sip obfKey node.selfNode counter node.signer nonce with
  | some frame =>
    { node with
      counter := counter
      link := .up
      sent := node.sent ++ [⟨frame, node.history.membership.ownCert⟩] }
  | none => { node with counter := counter, link := .dead }

def step (node : Node) : NodeEvent → Node
  | .directory event => { node with history := node.history.step suite skew event }
  | .connect wallMs nonce =>
    if node.link = .down then node.register suite sip obfKey wallMs nonce else node
  | .keepalive wallMs nonce =>
    if node.link = .up then node.register suite sip obfKey wallMs nonce else node
  | .disconnect => if node.link = .up then { node with link := .down } else node

end Steps

/-! ### What the relay is shown -/

section Shown

variable {suite : Suite} {skew : Nat} {sip : Wire.Sip} {obfKey : Bytes 16} {node : Node}

def Shows (sip : Wire.Sip) (obfKey : Bytes 16) (frame : List Byte) (message : Message) : Prop :=
  RendezvousServer.firstMessage (Obf.deobfuscate sip) obfKey frame = some message

theorem nextCounter_lt (last wallMs : Nat) : nextCounter last wallMs < 256 ^ 8 := by
  unfold nextCounter saturatingAdd
  have limit : u64Limit = 256 ^ 8 := rfl
  omega

theorem shows_frameRegistration {message : Message} {nonce : Bytes 8} {frame : List Byte}
    (sized : message.Sized) (built : frameRegistration sip obfKey message nonce = some frame) :
    Shows sip obfKey frame message := by
  obtain ⟨env, wrapped, framed⟩ := Option.bind_eq_some_iff.mp built
  obtain ⟨plain, encoded, -⟩ := Option.bind_eq_some_iff.mp wrapped
  have length := length_envelope encoded wrapped
  unfold frameDatagram at framed
  split at framed
  · rename_i fits
    obtain rfl := Option.some.inj framed
    have inCap : InCap RendezvousServer.tlsFrameCap env :=
      ⟨by rw [length, Obf.minEnvelope]; omega, fits.2⟩
    have format : Format (splitFrame RendezvousServer.tlsFrameCap) frameBytes
        (InCap RendezvousServer.tlsFrameCap) := splitFrame_format (by decide)
    have found : splitFrame RendezvousServer.tlsFrameCap (frameBytes env ++ []) = .item env [] :=
      format.whole inCap
    rw [List.append_nil] at found
    rw [Shows, firstMessage_eq_openFrame found, openFrame_envelope sized wrapped]
  · cases framed

/-- Every registration sent shows the certificate of the start. -/
structure FromStart (sip : Wire.Sip) (obfKey : Bytes 16) (m : Membership) (node : Node) :
    Prop where
  signer : node.signer = some (registrationSigner m)
  sent : ∀ sent ∈ node.sent, ∃ record,
    Shows sip obfKey sent.frame (.registerSigned record) ∧ record.cert = m.ownCert

variable {m : Membership}

theorem FromStart.register (fromStart : FromStart sip obfKey m node)
    (begins : m.ownCert.notBefore < 256 ^ 8) (ends : m.ownCert.notAfter < 256 ^ 8) (wallMs : Nat)
    (nonce : Bytes 8) : FromStart sip obfKey m (node.register suite sip obfKey wallMs nonce) := by
  unfold Node.register
  dsimp only
  split
  · rename_i frame built
    refine ⟨fromStart.signer, List.forall_mem_append.mpr ⟨fromStart.sent, ?_⟩⟩
    rw [fromStart.signer, buildRegistrationFrame] at built
    obtain ⟨record, signed, framed⟩ := Option.bind_eq_some_iff.mp built
    obtain ⟨isCert, -, isSeq, -⟩ := buildSignedRecord_eq_some signed
    have ofStart : record.cert = m.ownCert := isCert
    have sized : record.Sized :=
      ⟨by rwa [ofStart], by rwa [ofStart], by rw [isSeq]; exact nextCounter_lt _ _⟩
    rw [List.forall_mem_singleton]
    exact ⟨record, shows_frameRegistration sized framed, ofStart⟩
  · exact ⟨fromStart.signer, fromStart.sent⟩

theorem FromStart.step (fromStart : FromStart sip obfKey m node)
    (begins : m.ownCert.notBefore < 256 ^ 8) (ends : m.ownCert.notAfter < 256 ^ 8)
    (event : NodeEvent) : FromStart sip obfKey m (node.step suite skew sip obfKey event) := by
  cases event with
  | directory event => exact ⟨fromStart.signer, fromStart.sent⟩
  | connect wallMs nonce =>
    unfold Node.step
    dsimp only
    split
    · exact fromStart.register begins ends wallMs nonce
    · exact fromStart
  | keepalive wallMs nonce =>
    unfold Node.step
    dsimp only
    split
    · exact fromStart.register begins ends wallMs nonce
    · exact fromStart
  | disconnect =>
    unfold Node.step
    dsimp only
    split
    · exact ⟨fromStart.signer, fromStart.sent⟩
    · exact fromStart

theorem verify_eq_expired_iff {record : Record} {caPubkeys : List (Bytes 32)}
    {networkId : Bytes 16} {nowSecs skewSecs : Nat} :
    record.verify suite caPubkeys networkId nowSecs skewSecs = some (.error .expired) ↔
      verifyCert suite.ed record.cert caPubkeys networkId record.cert.memberPubkey nowSecs
        skewSecs = some (.error .expired) := by
  unfold Record.verify
  split
  · rename_i unread
    rw [unread]
  · rename_i error failed
    rw [failed]
  · rename_i passed
    rw [passed]
    refine iff_of_false ?_ (by simp)
    split
    · simp
    · intro failed
      obtain ⟨body, -, failed⟩ := Option.map_eq_some_iff.mp failed
      split at failed
      · cases failed
      · split at failed
        · cases failed
        · cases failed

end Shown

/-- In every run, with any renewals and any connections, the relay finds a signed record in each
registration. It carries the certificate of the directory exactly if that one is still the one of
the start, and a relay refuses it as expired exactly if the certificate of the start has expired. -/
theorem registration_current_iff_never_renewed {suite : Suite} {skew : Nat} {sip : Wire.Sip}
    {obfKey : Bytes 16} {m : Membership} (begins : m.ownCert.notBefore < 256 ^ 8)
    (ends : m.ownCert.notAfter < 256 ^ 8) (selfNode : NodeId) (wallMs : Nat)
    (events : List NodeEvent) :
    ∀ sent ∈ (Machine.run (step suite skew sip obfKey) (start m selfNode wallMs) events).sent,
      ∃ record, Shows sip obfKey sent.frame (.registerSigned record) ∧
        (record.cert = sent.held ↔ sent.held = m.ownCert) ∧
        ∀ caPubkeys networkId nowSecs,
          record.verify suite caPubkeys networkId nowSecs registrationSkewSecs =
              some (.error .expired) ↔
            verifyCert suite.ed m.ownCert caPubkeys networkId m.ownCert.memberPubkey nowSecs
              registrationSkewSecs = some (.error .expired) := by
  have fromStart := Machine.run_invariant (step suite skew sip obfKey) (fun _ _ => True)
    (FromStart sip obfKey m) (fun node event fromStart _ => fromStart.step begins ends event)
    (start m selfNode wallMs) events ⟨rfl, fun _ absent => absurd absent List.not_mem_nil⟩
    (Machine.admissible_of_forall _ (fun _ => True) _ _ fun _ _ => trivial)
  intro sent member
  obtain ⟨record, shown, ofStart⟩ := fromStart.sent sent member
  refine ⟨record, shown, ?_, fun caPubkeys networkId nowSecs => ?_⟩
  · rw [ofStart]
    exact eq_comm
  · rw [verify_eq_expired_iff, ofStart]

/-! ### A renewed member -/

namespace Transparent

open Members.Transparent

def sip : Wire.Sip := fun _ _ => 0

def begun : Node := start member (nodeId suite (all 32 1)) 1500000

def memberRegistration (counter : Nat) : Record :=
  ⟨nodeId suite (all 32 1), cert 1 9 2000, [], counter, all 64 1⟩

def frame (counter : Nat) : List Byte :=
  (buildRegisterSigned sip (all 16 7) (memberRegistration counter) (all 8 0)).getD []

end Transparent

section

open Members.Transparent Transparent

/-- Without a renewal a reconnection shows the certificate of the directory. -/
theorem unrenewed_member_current :
    let node := Machine.run (step suite clockSkewSecs sip (all 16 7)) begun
      [.connect 1500000 (all 8 0), .disconnect, .connect 1600000 (all 8 0)]
    node.sent.length = 2 ∧ ∀ sent ∈ node.sent, ∃ record,
      Shows sip (all 16 7) sent.frame (.registerSigned record) ∧ record.cert = sent.held := by
  refine ⟨by decide +kernel, fun sent member => ?_⟩
  have unrenewed : sent.held = Members.Transparent.member.ownCert := by
    revert sent
    decide +kernel
  obtain ⟨record, shown, current, -⟩ := registration_current_iff_never_renewed
    (m := Members.Transparent.member) (by decide +kernel) (by decide +kernel) _ _ _ sent member
  exact ⟨record, shown, current.mpr unrenewed⟩

/-- The certificate is renewed, and the node connects again after the old one has expired: the relay
is shown the old one and refuses the node, though the new one is good. -/
theorem renewed_member_refused :
    let node := Machine.run (step suite clockSkewSecs sip (all 16 7)) begun
      [.connect 1500000 (all 8 0), .directory (.updateOwnCert (cert 1 9 90000)), .disconnect,
        .connect 2400000 (all 8 0)]
    let server := RendezvousServer.newWithRoots [all 32 9] (all 16 0)
    ∃ sent ∈ node.sent, sent.held = cert 1 9 90000 ∧
      verifyCert suite.ed sent.held [all 32 9] (all 16 0) (all 32 1) 2400 registrationSkewSecs =
        some (.ok ()) ∧
      (∃ record, RendezvousServer.firstMessage (Obf.deobfuscate sip) (all 16 7) sent.frame =
          some (.registerSigned record) ∧ record.cert = cert 1 9 2000 ∧
        record.verify suite [all 32 9] (all 16 0) 2400 registrationSkewSecs =
          some (.error .expired)) ∧
      (server.classifyFirstFrameAt suite (Obf.deobfuscate sip) (all 16 7) sent.frame 0 2400).2 =
        .decoy := by
  refine ⟨⟨frame 2400001, cert 1 9 90000⟩, by decide +kernel, rfl, by decide +kernel,
    ⟨memberRegistration 2400001, by decide +kernel, rfl, by decide +kernel⟩, by decide +kernel⟩

end

end Node

end Yip.Rdv
