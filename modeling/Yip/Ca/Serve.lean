/-
This file models the running authority (`serve.rs`): the coordinator with its connections, and
the signer daemons.
-/

import Yip.Ca.Roast
import Yip.Ca.Signer

namespace Yip.Ca

open Members

/-! ### Coordinator -/

inductive Conn (frost : Frost) where
  | fresh
  | signer (signerId : Nat) (outbox : List (QuorumRpcMessage frost))
  | challenged (challengeNonce : Bytes 32)
  | spawning (payload : SubmitEnrollmentPayload) (message : List Byte) (tries : Nat)
  | dispatching (payload : SubmitEnrollmentPayload) (sessionId : Nat)
      (requests : List (Nat × SignCertRequestPayload frost))
  | waiting (payload : SubmitEnrollmentPayload) (sessionId polls : Nat)
  | closed

/-- A signer's daemon, and how far it has read its connection. -/
structure Daemon (frost : Frost) where
  signer : SignerState frost
  read : Nat

/-- A share that was given out, and what it was given out for. -/
structure IssuedShare (frost : Frost) where
  request : SignCertRequestPayload frost
  share : frost.Share
  policy : SignerPolicy
  nowSecs : Nat

/-- The server, the daemons of the signers and all that was written between them. -/
structure Authority (frost : Frost) where
  threshold : Nat
  pubkeyPackage : frost.PublicKeyPackage
  signerTxs : Nat → Option Nat
  roast : RoastCoordinator frost
  conns : Nat → Conn frost
  written : Nat → List (CaWireMessage frost)
  daemons : Nat → Option (Daemon frost)
  shares : List (IssuedShare frost)

inductive Event (frost : Frost) where
  | receive (conn : Nat) (message : CaWireMessage frost) (challenge : Bytes 32) (nowSecs : Nat)
  | disconnect (conn : Nat)
  | flush (conn : Nat)
  | attempt (conn : Nat)
  | dispatch (conn : Nat)
  | poll (conn : Nat)
  | start (conn : Nat) (keyPackage : frost.KeyPackage) (pubkeyPackage : frost.PublicKeyPackage)
      (policy : SignerPolicy) (bootEpochId : Nat) (seeds : List.Vector Nat 16)
  | sign (conn : Nat) (nowSecs seed : Nat)

namespace Authority

variable {frost : Frost}

def new (threshold : Nat) (pubkeyPackage : frost.PublicKeyPackage) : Authority frost where
  threshold := threshold
  pubkeyPackage := pubkeyPackage
  signerTxs := fun _ => none
  roast := RoastCoordinator.new threshold pubkeyPackage []
  conns := fun _ => .fresh
  written := fun _ => []
  daemons := fun _ => none
  shares := []

def become (ca : Authority frost) (conn : Nat) (stage : Conn frost) : Authority frost :=
  { ca with conns := Function.update ca.conns conn stage }

def write (ca : Authority frost) (conn : Nat) (message : CaWireMessage frost) :
    Authority frost :=
  { ca with written := Function.update ca.written conn (ca.written conn ++ [message]) }

def answer (ca : Authority frost) (conn : Nat) (response : ClientRpcResponse) :
    Authority frost :=
  (ca.write conn (.clientResp response)).become conn .closed

def leave (ca : Authority frost) (conn signerId : Nat) : Authority frost :=
  { ca.become conn .closed with signerTxs := Function.update ca.signerTxs signerId none }

def onFirst (ca : Authority frost) (conn : Nat) (message : CaWireMessage frost)
    (challenge : Bytes 32) (nowSecs : Nat) : Authority frost :=
  match message with
  | .quorum (.publishCommitments signerId _ commitments) =>
    { ca.become conn (.signer signerId []) with
      signerTxs := Function.update ca.signerTxs signerId (some conn)
      roast := ca.roast.registerCommitments signerId commitments }
  | .clientReq .getChallenge =>
    (ca.write conn (.clientResp (.challenge challenge (nowSecs + 300)))).become conn
      (.challenged challenge)
  | _ => ca.become conn .closed

def onSigner (ca : Authority frost) (conn signerId : Nat) (message : CaWireMessage frost) :
    Authority frost :=
  match message with
  | .quorum (.signCertResponse payload) =>
    { ca with
      roast := (ca.roast.receiveShare payload.sessionId payload.signerId payload.signatureShare
        payload.replenishCommitment).1 }
  | _ => ca.leave conn signerId

def onSubmission (ed : Ed25519) (ca : Authority frost) (conn : Nat) (challenge : Bytes 32)
    (message : CaWireMessage frost) : Authority frost :=
  match message with
  | .clientReq (.submitEnrollment payload) =>
    if payload.challengeNonce ≠ challenge then
      ca.answer conn (.rejected "challenge nonce mismatch")
    else
      match verifyEnrollmentPop ed payload.popSignature payload.csrTbs.memberSignPubkey challenge
          payload.csrTbs, payload.csrTbs.toCanonicalBytes with
      | some (.ok ()), some body => ca.become conn (.spawning payload body 60)
      | some (.error e), _ => ca.answer conn (.rejected ("PoP verification failed: " ++ e))
      | _, _ => ca.become conn .closed
  | _ => ca.become conn .closed

def requests (ca : Authority frost) (payload : SubmitEnrollmentPayload) (sessionId : Nat)
    (signingPackage : SigningPackage frost.Commitments) (slotMap : List (Nat × NonceSlotId)) :
    List (Nat × SignCertRequestPayload frost) :=
  slotMap.filterMap fun (id, slot) => (ca.signerTxs id).map fun target =>
    (target, ⟨sessionId, slot, signingPackage, payload.csrTbs, payload.credential,
      payload.challengeNonce, payload.popSignature⟩)

def stalled : ClientRpcResponse := .rejected "threshold signing quorum unreachable or stalled"

def onAttempt (ca : Authority frost) (conn : Nat) (payload : SubmitEnrollmentPayload)
    (message : List Byte) : Nat → Authority frost
  | 0 => ca.answer conn stalled
  | tries + 1 =>
    match { ca.roast with message := message }.trySpawnSession with
    | (roast, none) => { ca.become conn (.spawning payload message tries) with roast := roast }
    | (roast, some (sessionId, signingPackage, slotMap)) =>
      { ca.become conn (.dispatching payload sessionId
          (ca.requests payload sessionId signingPackage slotMap)) with roast := roast }

def channelCapacity : Nat := 32

def onDispatch (ca : Authority frost) (conn : Nat) (payload : SubmitEnrollmentPayload)
    (sessionId : Nat) : List (Nat × SignCertRequestPayload frost) → Authority frost
  | [] => ca.become conn (.waiting payload sessionId 200)
  | (target, request) :: rest =>
    match ca.conns target with
    | .signer signerId outbox =>
      if outbox.length < channelCapacity then
        (ca.become target (.signer signerId (outbox ++ [.signCertRequest request]))).become conn
          (.dispatching payload sessionId rest)
      else ca
    | _ => ca.become conn (.dispatching payload sessionId rest)

def finished (ca : Authority frost) (payload : SubmitEnrollmentPayload) (sessionId : Nat) :
    Option Cert :=
  (ca.roast.activeSessions sessionId).bind fun session =>
    if session.collectedShares.entries.length ≥ ca.threshold then
      match frost.aggregate session.signingPackage session.collectedShares ca.pubkeyPackage with
      | .ok signature =>
        let tbs := payload.csrTbs
        some ⟨tbs.version, tbs.memberPubkey, tbs.memberSignPubkey, tbs.networkId, tbs.notBefore,
          tbs.notAfter, tbs.tags, signature⟩
      | .error _ => none
    else none

def onPoll (ca : Authority frost) (conn : Nat) (payload : SubmitEnrollmentPayload)
    (sessionId : Nat) : Nat → Authority frost
  | 0 => ca.answer conn stalled
  | polls + 1 =>
    match ca.finished payload sessionId with
    | none => ca.become conn (.waiting payload sessionId polls)
    | some cert =>
      match cert.encode with
      | none => ca.become conn .closed
      | some certBytes =>
        ca.answer conn (.enrolled certBytes (frost.verifyingKey ca.pubkeyPackage))

/-! ### Daemons -/

def onSign (ca : Authority frost) (conn nowSecs seed : Nat) : Authority frost :=
  match ca.daemons conn with
  | none => ca
  | some daemon =>
    match (ca.written conn)[daemon.read]? with
    | none => ca
    | some (.quorum (.signCertRequest request)) =>
      match daemon.signer.handleSignRequest request seed with
      | none => { ca with daemons := Function.update ca.daemons conn none }
      | some (signer, response) =>
        { ca with
          daemons := Function.update ca.daemons conn (some ⟨signer, daemon.read + 1⟩)
          shares := match response with
            | .signCertResponse payload =>
              ca.shares ++ [⟨request, payload.signatureShare, signer.policy, nowSecs⟩]
            | _ => ca.shares }
    | some _ =>
      { ca with
        daemons := Function.update ca.daemons conn (some { daemon with read := daemon.read + 1 }) }

def step (ed : Ed25519) (ca : Authority frost) : Event frost → Authority frost
  | .receive conn message challenge nowSecs =>
    match ca.conns conn with
    | .fresh => ca.onFirst conn message challenge nowSecs
    | .signer signerId _ => ca.onSigner conn signerId message
    | .challenged nonce => onSubmission ed ca conn nonce message
    | _ => ca
  | .disconnect conn =>
    match ca.conns conn with
    | .fresh => ca.become conn .closed
    | .signer signerId _ => ca.leave conn signerId
    | .challenged _ => ca.become conn .closed
    | _ => ca
  | .flush conn =>
    match ca.conns conn with
    | .signer signerId (message :: rest) =>
      (ca.write conn (.quorum message)).become conn (.signer signerId rest)
    | _ => ca
  | .attempt conn =>
    match ca.conns conn with
    | .spawning payload message tries => ca.onAttempt conn payload message tries
    | _ => ca
  | .dispatch conn =>
    match ca.conns conn with
    | .dispatching payload sessionId requests => ca.onDispatch conn payload sessionId requests
    | _ => ca
  | .poll conn =>
    match ca.conns conn with
    | .waiting payload sessionId polls => ca.onPoll conn payload sessionId polls
    | _ => ca
  | .start conn keyPackage pubkeyPackage policy bootEpochId seeds =>
    match ca.daemons conn, SignerState.boot keyPackage pubkeyPackage policy bootEpochId seeds with
    | none, some (signer, _) =>
      { ca with daemons := Function.update ca.daemons conn (some ⟨signer, 0⟩) }
    | _, _ => ca
  | .sign conn nowSecs seed => ca.onSign conn nowSecs seed

end Authority

end Yip.Ca
