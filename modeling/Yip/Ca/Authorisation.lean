/-
This file is about who gets a certificate from the threshold authority: whoever proves possession
of the member's key.

Coordinator and signers pass the credential of an enrolment on without reading it. What it should
grant is stated here, and a run shows that it is not needed.
-/

import Yip.Ca.Serve

namespace Yip.Ca

open Members

/-! ### What a credential should grant -/

section Credentials

variable (ed : Ed25519)
  -- What the administrator signs of a token, and a member of its renewal; the program never says.
  (tokenBody : BootstrapToken → List Byte) (renewalBody : List Byte → CertTbs → List Byte)

/-- The credential authorises a body: a token of the administrator for this member, or a renewal
of a certificate that the authority has signed for it. -/
def Authorises (caKey : Bytes 32) (policy : SignerPolicy) (nowSecs : Nat) (tbs : CertTbs) :
    EnrollmentCredential → Prop
  | .bootstrapToken token =>
    ∃ admin, policy.adminProvisioningPubkey = some admin ∧
      ed.verifyStrict admin (tokenBody token) token.adminSignature = true ∧
      nowSecs < token.notAfterUnix ∧ token.allowedNodeId = tbs.memberPubkey
  | .renewalCert existingCertBytes renewalSignature =>
    ∃ cert body, Cert.decode existingCertBytes = some cert ∧ certSigningBody cert = some body ∧
      ed.verifyStrict caKey body cert.caSig = true ∧
      cert.notBefore ≤ nowSecs ∧ nowSecs < cert.notAfter ∧
      cert.memberPubkey = tbs.memberPubkey ∧
      ed.verifyStrict cert.memberSignPubkey (renewalBody existingCertBytes tbs)
        renewalSignature = true

end Credentials

/-! ### The way of a submission -/

section Cleared

variable {frost : Frost} (ed : Ed25519)

/-- The proof of possession of a submission verifies. -/
def ClearedPayload (payload : SubmitEnrollmentPayload) : Prop :=
  verifyEnrollmentPop ed payload.popSignature payload.csrTbs.memberSignPubkey
    payload.challengeNonce payload.csrTbs = some (.ok ())

def ClearedRequest (request : SignCertRequestPayload frost) : Prop :=
  ClearedPayload ed
    ⟨request.challengeNonce, request.certTbs, request.credential, request.popSignature⟩

def ClearedMessage : QuorumRpcMessage frost → Prop
  | .signCertRequest request => ClearedRequest ed request
  | _ => True

def ClearedConn : Conn frost → Prop
  | .signer _ outbox => ∀ message ∈ outbox, ClearedMessage ed message
  | .spawning payload _ _ => ClearedPayload ed payload
  | .dispatching _ _ requests => ∀ entry ∈ requests, ClearedRequest ed entry.2
  | _ => True

def ClearedFrame : CaWireMessage frost → Prop
  | .quorum message => ClearedMessage ed message
  | _ => True

/-- Every request on its way to a signer, and every share, has a verified proof of possession. -/
structure Cleared (ca : Authority frost) : Prop where
  conns : ∀ conn, ClearedConn ed (ca.conns conn)
  written : ∀ conn, ∀ frame ∈ ca.written conn, ClearedFrame ed frame
  shares : ∀ issued ∈ ca.shares, ClearedRequest ed issued.request ∧
    issued.request.certTbs.toCanonicalBytes = some issued.request.signingPackage.message

variable {ed} {ca : Authority frost}

theorem cleared_new (threshold : Nat) (pubkeyPackage : frost.PublicKeyPackage) :
    Cleared ed (Authority.new threshold pubkeyPackage) :=
  ⟨fun _ => trivial, by simp [Authority.new], by simp [Authority.new]⟩

namespace Cleared

variable (cleared : Cleared ed ca)

include cleared

theorem become (conn : Nat) (stage : Conn frost) (stageCleared : ClearedConn ed stage) :
    Cleared ed (ca.become conn stage) where
  conns := by
    intro other
    rcases eq_or_ne other conn with rfl | ne
    · simpa only [Authority.become, Function.update_self] using stageCleared
    · simpa only [Authority.become, Function.update_of_ne ne] using cleared.conns other
  written := cleared.written
  shares := cleared.shares

theorem write (conn : Nat) (frame : CaWireMessage frost)
    (frameCleared : ClearedFrame ed frame) :
    Cleared ed (ca.write conn frame) where
  conns := cleared.conns
  written := by
    intro other
    rcases eq_or_ne other conn with rfl | ne
    · simp only [Authority.write, Function.update_self, List.mem_append, List.mem_singleton]
      rintro entry (old | rfl)
      · exact cleared.written other entry old
      · exact frameCleared
    · simp only [Authority.write, Function.update_of_ne ne]
      exact cleared.written other
  shares := cleared.shares

theorem answer (conn : Nat) (response : ClientRpcResponse) :
    Cleared ed (ca.answer conn response) :=
  (cleared.write conn (.clientResp response) trivial).become conn .closed trivial

theorem tables (signerTxs : Nat → Option Nat) (roast : RoastCoordinator frost) :
    Cleared ed { ca with signerTxs := signerTxs, roast := roast } :=
  { cleared with }

theorem onFirst (conn : Nat)
    (message : CaWireMessage frost) (challenge : Bytes 32) (nowSecs : Nat) :
    Cleared ed (ca.onFirst conn message challenge nowSecs) := by
  unfold Authority.onFirst
  split
  · exact (cleared.become conn (.signer _ []) (List.forall_mem_nil _)).tables _ _
  · exact (cleared.write conn (.clientResp _) trivial).become conn (.challenged _) trivial
  · exact cleared.become conn _ trivial

theorem onSigner (conn signerId : Nat) (message : CaWireMessage frost) :
    Cleared ed (ca.onSigner conn signerId message) := by
  unfold Authority.onSigner
  split
  · exact cleared.tables _ _
  · exact (cleared.become conn .closed trivial).tables _ _

theorem onSubmission (conn : Nat) (challenge : Bytes 32) (message : CaWireMessage frost) :
    Cleared ed (Authority.onSubmission ed ca conn challenge message) := by
  unfold Authority.onSubmission
  split
  · rename_i payload
    split
    · exact cleared.answer conn _
    · rename_i same
      split
      · rename_i verified _
        refine cleared.become conn (.spawning _ _ _) ?_
        rw [ClearedConn, ClearedPayload, not_not.mp same]
        exact verified
      · exact cleared.answer conn _
      · exact cleared.become conn _ trivial
  · exact cleared.become conn _ trivial

theorem onAttempt (conn : Nat) {payload : SubmitEnrollmentPayload} (message : List Byte)
    (checked : ClearedPayload ed payload) (tries : Nat) :
    Cleared ed (ca.onAttempt conn payload message tries) := by
  cases tries with
  | zero => exact cleared.answer conn _
  | succ tries =>
    rw [Authority.onAttempt]
    split
    · exact (cleared.become conn (.spawning payload message tries) checked).tables _ _
    · refine (cleared.become conn (.dispatching _ _ _) ?_).tables _ _
      intro entry member
      obtain ⟨slot, -, made⟩ := List.mem_filterMap.mp member
      obtain ⟨target, -, rfl⟩ := Option.map_eq_some_iff.mp made
      exact checked

theorem onDispatch (conn : Nat) (payload : SubmitEnrollmentPayload) (sessionId : Nat)
    {requests : List (Nat × SignCertRequestPayload frost)}
    (checked : ∀ entry ∈ requests, ClearedRequest ed entry.2) :
    Cleared ed (ca.onDispatch conn payload sessionId requests) := by
  cases requests with
  | nil => exact cleared.become conn _ trivial
  | cons first rest =>
    have remaining : ∀ entry ∈ rest, ClearedRequest ed entry.2 :=
      fun entry member => checked entry (List.mem_cons_of_mem _ member)
    rw [Authority.onDispatch]
    split
    · rename_i signerId outbox stage
      split
      · refine (cleared.become first.1 (.signer _ _) ?_).become conn (.dispatching _ _ _) remaining
        have known := cleared.conns first.1
        rw [stage] at known
        exact List.forall_mem_append.mpr
          ⟨known, List.forall_mem_singleton.mpr (checked first List.mem_cons_self)⟩
      · exact cleared
    · exact cleared.become conn (.dispatching _ _ _) remaining

theorem onPoll (conn : Nat) (payload : SubmitEnrollmentPayload) (sessionId polls : Nat) :
    Cleared ed (ca.onPoll conn payload sessionId polls) := by
  cases polls with
  | zero => exact cleared.answer conn _
  | succ polls =>
    rw [Authority.onPoll]
    split
    · exact cleared.become conn _ trivial
    · split
      · exact cleared.become conn _ trivial
      · exact cleared.answer conn _

theorem onSign (conn nowSecs seed : Nat) : Cleared ed (ca.onSign conn nowSecs seed) := by
  unfold Authority.onSign
  split
  · exact cleared
  · split
    · exact cleared
    · rename_i request frame
      have checked : ClearedRequest ed request :=
        cleared.written conn _ (List.mem_of_getElem? frame)
      split
      · exact { cleared with }
      · rename_i signer response handled
        refine ⟨cleared.conns, cleared.written, ?_⟩
        split
        · exact List.forall_mem_append.mpr ⟨cleared.shares, List.forall_mem_singleton.mpr
            ⟨checked, SignerState.handleSignRequest_share handled⟩⟩
        · exact cleared.shares
    · exact { cleared with }

theorem step (event : Event frost) : Cleared ed (Authority.step ed ca event) := by
  cases event with
  | receive conn message challenge nowSecs =>
    rw [Authority.step]
    split
    · exact cleared.onFirst conn message challenge nowSecs
    · exact cleared.onSigner conn _ message
    · exact cleared.onSubmission conn _ message
    · exact cleared
  | disconnect conn =>
    rw [Authority.step]
    split
    · exact cleared.become conn .closed trivial
    · exact (cleared.become conn .closed trivial).tables _ _
    · exact cleared.become conn .closed trivial
    · exact cleared
  | flush conn =>
    rw [Authority.step]
    split
    · rename_i signerId message rest stage
      have known := cleared.conns conn
      rw [stage] at known
      exact (cleared.write conn (.quorum message) (known message List.mem_cons_self)).become conn
        (.signer signerId rest) fun other member => known other (List.mem_cons_of_mem _ member)
    · exact cleared
  | attempt conn =>
    rw [Authority.step]
    split
    · rename_i payload message tries stage
      have known := cleared.conns conn
      rw [stage] at known
      exact cleared.onAttempt conn message known tries
    · exact cleared
  | dispatch conn =>
    rw [Authority.step]
    split
    · rename_i payload sessionId requests stage
      have known := cleared.conns conn
      rw [stage] at known
      exact cleared.onDispatch conn payload sessionId known
    · exact cleared
  | poll conn =>
    rw [Authority.step]
    split
    · exact cleared.onPoll conn _ _ _
    · exact cleared
  | start conn keyPackage pubkeyPackage policy bootEpochId seeds =>
    rw [Authority.step]
    split
    · exact { cleared with }
    · exact cleared
  | sign conn nowSecs seed => exact cleared.onSign conn nowSecs seed

theorem run (events : List (Event frost)) :
    Cleared ed (Machine.run (Authority.step ed) ca events) :=
  Machine.run_invariant (Authority.step ed) (fun _ _ => True) (Cleared ed)
    (fun _ event holds _ => holds.step event) ca events cleared
    (Machine.admissible_of_forall _ _ _ _ fun _ _ => trivial)

end Cleared

end Cleared

/-! ### Authorisation -/

/-- In every run of the authority, a share is issued only for the canonical bytes of the body in
its request, and only if the proof of possession verifies. No signer reads the credential: its
answer is the same for every one. -/
theorem shares_need_possession {frost : Frost} (ed : Ed25519) (threshold : Nat)
    (pubkeyPackage : frost.PublicKeyPackage) (events : List (Event frost)) :
    (∀ issued ∈ (Machine.run (Authority.step ed) (Authority.new threshold pubkeyPackage)
        events).shares,
      issued.request.certTbs.toCanonicalBytes = some issued.request.signingPackage.message ∧
      verifyEnrollmentPop ed issued.request.popSignature issued.request.certTbs.memberSignPubkey
        issued.request.challengeNonce issued.request.certTbs = some (.ok ())) ∧
    ∀ (signer : SignerState frost) (request : SignCertRequestPayload frost)
      (credential : EnrollmentCredential) (seed : Nat),
      signer.handleSignRequest { request with credential := credential } seed =
        signer.handleSignRequest request seed := by
  refine ⟨?_, fun _ _ _ _ => rfl⟩
  intro issued member
  obtain ⟨checked, forBody⟩ :=
    ((cleared_new threshold pubkeyPackage).run events).shares issued member
  exact ⟨forBody, checked⟩

/-! ### An executable authority -/

namespace Transparent

def ed25519 : Ed25519 where
  isKey := fun _ => true
  verifyStrict := fun key _ signature => signature.toList = key.toList ++ key.toList

def frost : Frost where
  KeyPackage := Nat
  PublicKeyPackage := Bytes 32
  Nonces := Nat
  Commitments := Nat
  Share := Nat
  identifier := id
  commit := fun _ seed => (seed, seed)
  sign := fun _ nonces _ => .ok nonces
  knows := fun _ _ => true
  verifyShare := fun _ _ _ _ => .ok ()
  aggregate := fun _ _ key => .ok ⟨key.toList ++ key.toList, by simp⟩
  verifyingKey := id

def fill (length value : Nat) : Bytes length := List.Vector.replicate length (Byte.ofNat value)

def tbs : CertTbs := ⟨1, fill 32 1, fill 32 1, fill 16 0, 1000, 2000, []⟩

/-- Signers 1 and 2 start and publish commitments, a client asks for a certificate, and signer 1
gets to the request. -/
def enrolment (policy : SignerPolicy) (credential : EnrollmentCredential) : List (Event frost) :=
  [.start 0 (1 : Nat) (fill 32 9) policy 5 ⟨List.range 16, rfl⟩,
    .start 2 (2 : Nat) (fill 32 9) policy 5 ⟨List.range 16, rfl⟩,
    .receive 0 (.quorum (.publishCommitments 1 5 [(⟨5, 1⟩, (0 : Nat))])) (fill 32 0) 0,
    .receive 2 (.quorum (.publishCommitments 2 5 [(⟨5, 1⟩, (0 : Nat))])) (fill 32 0) 0,
    .receive 1 (.clientReq .getChallenge) (fill 32 7) 1500,
    .receive 1 (.clientReq (.submitEnrollment ⟨fill 32 7, tbs, credential, fill 64 1⟩))
      (fill 32 0) 1500,
    .attempt 1, .dispatch 1, .dispatch 1, .flush 0, .sign 0 1500 99]

def enrolled (policy : SignerPolicy) (credential : EnrollmentCredential) : Authority frost :=
  Machine.run (Authority.step ed25519) (Authority.new 2 (fill 32 9)) (enrolment policy credential)

end Transparent

open Transparent in
/-- A client that owns nothing but its own key presents an empty certificate as its credential. No
signer has an administrator, and the share is issued. -/
theorem anyone_is_signed :
    let ca := enrolled SignerPolicy.default (.renewalCert [] (fill 64 0))
    ca.shares.map (fun issued => (issued.request.certTbs, issued.request.credential)) =
        [(tbs, .renewalCert [] (fill 64 0))] ∧
      ∀ tokenBody renewalBody policy nowSecs,
        ¬ Authorises ed25519 tokenBody renewalBody (fill 32 9) policy nowSecs tbs
          (.renewalCert [] (fill 64 0)) := by
  refine ⟨by decide +kernel, ?_⟩
  rintro tokenBody renewalBody policy nowSecs ⟨cert, body, decoded, -⟩
  cases decoded

end Yip.Ca
