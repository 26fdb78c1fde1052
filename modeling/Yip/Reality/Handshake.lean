/-
This file models the key schedule and the record layer of TLS 1.3 as `handshake.rs` of
`yip-utls` has them.
-/

import Yip.Members.Record
import Yip.Wire

namespace Yip.Reality

open Members List

inductive HandshakeError where
  | unsupportedCipherSuite
  | crypto
  | recordTooLarge
  | emptyInnerPlaintext
  | unexpectedContentType
  deriving DecidableEq, Repr

inductive Error where
  | io
  | handshake (error : HandshakeError)
  | protocol (text : String)
  | unsupportedGroup (group : Nat)
  | flightTooLarge
  | messageTooLarge
  deriving DecidableEq, Repr

theorem bind_eq_ok_iff {Problem First Second : Type} {first : Except Problem First}
    {next : First → Except Problem Second} {result : Second} :
    (first >>= next) = .ok result ↔ ∃ value, first = .ok value ∧ next value = .ok result := by
  cases first with
  | error error => simp [bind, Except.bind]
  | ok value => simp [bind, Except.bind]

/-! ### Primitives -/

inductive Digest where
  | sha256
  | sha384
  deriving DecidableEq

def Digest.outputLen : Digest → Nat
  | .sha256 => 32
  | .sha384 => 48

inductive Algorithm where
  | aes128Gcm
  | aes256Gcm
  | chacha20Poly1305
  deriving DecidableEq

def Algorithm.keyLen : Algorithm → Nat
  | .aes128Gcm => 16
  | .aes256Gcm => 32
  | .chacha20Poly1305 => 32

def tagLen : Nat := 16

structure Primitives where
  hash : (digest : Digest) → List Byte → Bytes digest.outputLen
  hmac : (digest : Digest) → (key message : List Byte) → Bytes digest.outputLen
  aeadSeal : Algorithm → (key nonce aad plaintext : List Byte) → Option (List Byte)
  aeadOpen : Algorithm → (key nonce aad ciphertext : List Byte) → Option (List Byte)
  sign : (key message : List Byte) → Option (List Byte)
  open_seal : ∀ {alg key nonce aad plaintext ciphertext},
    aeadSeal alg key nonce aad plaintext = some ciphertext →
      aeadOpen alg key nonce aad ciphertext = some plaintext
  length_seal : ∀ {alg key nonce aad plaintext ciphertext},
    aeadSeal alg key nonce aad plaintext = some ciphertext →
      ciphertext.length = plaintext.length + tagLen

/-! ### Cipher suites -/

def suiteAes128GcmSha256 : Nat := 0x1301

def suiteAes256GcmSha384 : Nat := 0x1302

def suiteChacha20Poly1305Sha256 : Nat := 0x1303

def digestForSuite (suite : Nat) : Digest :=
  if suite = suiteAes256GcmSha384 then .sha384 else .sha256

def keyLenForSuite (suite : Nat) : Nat := if suite = suiteAes128GcmSha256 then 16 else 32

def algorithmForSuite (suite : Nat) : Except HandshakeError Algorithm :=
  if suite = suiteAes128GcmSha256 then .ok .aes128Gcm
  else if suite = suiteAes256GcmSha384 then .ok .aes256Gcm
  else if suite = suiteChacha20Poly1305Sha256 then .ok .chacha20Poly1305
  else .error .unsupportedCipherSuite

/-! ### Key schedule -/

section Schedule

variable (prims : Primitives)

def transcriptHash (message : List Byte) (suite : Nat) : List Byte :=
  (prims.hash (digestForSuite suite) message).toList

def hkdfExtract (salt ikm : List Byte) (suite : Nat) : List Byte :=
  (prims.hmac (digestForSuite suite) salt ikm).toList

def expandBlocks (digest : Digest) (prk info : List Byte) : Nat → Nat → List Byte → List Byte
  | 0, _, _ => []
  | blocks + 1, counter, prev =>
    let block := (prims.hmac digest prk (prev ++ info ++ [Byte.ofNat (counter + 1)])).toList
    block ++ expandBlocks digest prk info blocks (counter + 1) block

def hkdfExpand (prk info : List Byte) (len suite : Nat) : List Byte :=
  let digest := digestForSuite suite
  let blocks := (len + digest.outputLen - 1) / digest.outputLen
  (expandBlocks prims digest prk info blocks 0 []).take len

def hkdfExpandLabel (secret : List Byte) (label : String) (context : List Byte)
    (len suite : Nat) : List Byte :=
  let fullLabel := asciiBytes ("tls13 " ++ label)
  hkdfExpand prims secret
    (toBeBytes 2 len ++ [Byte.ofNat fullLabel.length] ++ fullLabel ++
      [Byte.ofNat context.length] ++ context)
    len suite

def deriveSecret (secret : List Byte) (label : String) (hash : List Byte) (suite : Nat) :
    List Byte :=
  hkdfExpandLabel prims secret label hash (digestForSuite suite).outputLen suite

structure HandshakeKeys where
  clientKey : List Byte
  clientIv : List Byte
  serverKey : List Byte
  serverIv : List Byte
  suite : Nat
  handshakeSecret : List Byte
  clientHsTraffic : List Byte
  serverHsTraffic : List Byte

structure ApplicationKeys where
  clientKey : List Byte
  clientIv : List Byte
  serverKey : List Byte
  serverIv : List Byte
  suite : Nat
  deriving DecidableEq

def trafficKeys (secret : List Byte) (suite : Nat) : List Byte × List Byte :=
  (hkdfExpandLabel prims secret "key" [] (keyLenForSuite suite) suite,
    hkdfExpandLabel prims secret "iv" [] 12 suite)

def deriveHandshakeKeys (ecdhe hashChSh : List Byte) (suite : Nat) : HandshakeKeys :=
  let zeros := List.replicate (digestForSuite suite).outputLen (Byte.ofNat 0)
  let early := hkdfExtract prims zeros zeros suite
  let derived := deriveSecret prims early "derived" (transcriptHash prims [] suite) suite
  let secret := hkdfExtract prims derived ecdhe suite
  let client := deriveSecret prims secret "c hs traffic" hashChSh suite
  let server := deriveSecret prims secret "s hs traffic" hashChSh suite
  { clientKey := (trafficKeys prims client suite).1
    clientIv := (trafficKeys prims client suite).2
    serverKey := (trafficKeys prims server suite).1
    serverIv := (trafficKeys prims server suite).2
    suite := suite
    handshakeSecret := secret
    clientHsTraffic := client
    serverHsTraffic := server }

def finishedVerifyData (baseSecret hash : List Byte) (suite : Nat) : List Byte :=
  let finishedKey :=
    hkdfExpandLabel prims baseSecret "finished" [] (digestForSuite suite).outputLen suite
  (prims.hmac (digestForSuite suite) finishedKey hash).toList

def deriveApplicationKeys (handshakeSecret hashThroughFinished : List Byte) (suite : Nat) :
    ApplicationKeys :=
  let zeros := List.replicate (digestForSuite suite).outputLen (Byte.ofNat 0)
  let derived :=
    deriveSecret prims handshakeSecret "derived" (transcriptHash prims [] suite) suite
  let master := hkdfExtract prims derived zeros suite
  let client := deriveSecret prims master "c ap traffic" hashThroughFinished suite
  let server := deriveSecret prims master "s ap traffic" hashThroughFinished suite
  { clientKey := (trafficKeys prims client suite).1
    clientIv := (trafficKeys prims client suite).2
    serverKey := (trafficKeys prims server suite).1
    serverIv := (trafficKeys prims server suite).2
    suite := suite }

/-! ### Record layer -/

def contentTypeAlert : Byte := Byte.ofNat 0x15

def contentTypeHandshake : Byte := Byte.ofNat 0x16

def contentTypeApplicationData : Byte := Byte.ofNat 0x17

def makeNonce (iv : List Byte) (seq : Nat) : List Byte :=
  iv.take 4 ++ Wire.xorInPlace (iv.drop 4) (toBeBytes 8 seq)

def recordAad (recordType : Byte) (length : Nat) : List Byte :=
  [recordType, Byte.ofNat 3, Byte.ofNat 3] ++ toBeBytes 2 length

def usableAlgorithm (key : List Byte) (suite : Nat) : Except HandshakeError Algorithm := do
  let alg ← algorithmForSuite suite
  if key.length = alg.keyLen then return alg else .error .crypto

def recordSealPadded (key iv : List Byte) (seq suite : Nat) (contentType : Byte)
    (content : List Byte) (padLen : Nat) : Except HandshakeError (List Byte) := do
  let alg ← usableAlgorithm key suite
  let inner := content ++ contentType :: List.replicate padLen (Byte.ofNat 0)
  let totalLen := inner.length + tagLen
  if totalLen ≥ 65536 then .error .recordTooLarge
  else
    match prims.aeadSeal alg key (makeNonce iv seq)
      (recordAad contentTypeApplicationData totalLen) inner with
    | some ciphertext => return ciphertext
    | none => .error .crypto

def stripZeros (inner : List Byte) : List Byte :=
  (inner.reverse.dropWhile (· = Byte.ofNat 0)).reverse

def recordOpenTyped (key iv : List Byte) (seq suite : Nat) (recordType : Byte)
    (payload : List Byte) : Except HandshakeError (Byte × List Byte) := do
  let alg ← usableAlgorithm key suite
  if payload.length ≥ 65536 then .error .recordTooLarge
  else
    match prims.aeadOpen alg key (makeNonce iv seq) (recordAad recordType payload.length)
      payload with
    | none => .error .crypto
    | some inner =>
      match (stripZeros inner).getLast? with
      | none => .error .emptyInnerPlaintext
      | some contentType =>
        if contentType = contentTypeHandshake ∨ contentType = contentTypeApplicationData ∨
          contentType = contentTypeAlert then return (contentType, (stripZeros inner).dropLast)
        else .error .unexpectedContentType

def recordOpen (key iv : List Byte) (seq suite : Nat) (recordType : Byte)
    (payload : List Byte) : Except HandshakeError (List Byte) :=
  (recordOpenTyped prims key iv seq suite recordType payload).map (·.2)

end Schedule

/-! ### Opening is inverse to sealing -/

theorem stripZeros_padded {content : List Byte} {contentType : Byte} (padLen : Nat)
    (mark : contentType ≠ Byte.ofNat 0) :
    stripZeros (content ++ contentType :: List.replicate padLen (Byte.ofNat 0)) =
      content ++ [contentType] := by
  unfold stripZeros
  rw [reverse_append, reverse_cons, reverse_replicate, append_assoc,
    dropWhile_append_of_pos (by simp), singleton_append,
    dropWhile_cons_of_neg (by simpa using mark)]
  simp

section Sealing

variable {prims : Primitives} {key iv : List Byte} {seq suite : Nat}

theorem ok_of_recordSealPadded {contentType : Byte} {content payload : List Byte} {padLen : Nat}
    (built : recordSealPadded prims key iv seq suite contentType content padLen = .ok payload) :
    ∃ alg, usableAlgorithm key suite = .ok alg ∧
      payload.length = content.length + padLen + 17 ∧ payload.length < 65536 ∧
      prims.aeadOpen alg key (makeNonce iv seq)
        (recordAad contentTypeApplicationData payload.length) payload =
          some (content ++ contentType :: List.replicate padLen (Byte.ofNat 0)) := by
  obtain ⟨alg, usable, sealing⟩ := bind_eq_ok_iff.mp built
  dsimp only at sealing
  split at sealing
  · cases sealing
  · rename_i small
    split at sealing
    · rename_i ciphertext isSealed
      obtain rfl := Except.ok.inj sealing
      have length := prims.length_seal isSealed
      refine ⟨alg, usable, ?_, by rw [length]; exact not_le.mp small, ?_⟩
      · rw [length]
        simp only [length_append, length_cons, length_replicate, tagLen]
        omega
      · rw [length]
        exact prims.open_seal isSealed
    · cases sealing

theorem recordOpenTyped_recordSealPadded {contentType : Byte} {content payload : List Byte}
    {padLen : Nat}
    (known : contentType = contentTypeHandshake ∨ contentType = contentTypeApplicationData ∨
      contentType = contentTypeAlert)
    (built : recordSealPadded prims key iv seq suite contentType content padLen = .ok payload) :
    recordOpenTyped prims key iv seq suite contentTypeApplicationData payload =
      .ok (contentType, content) := by
  obtain ⟨alg, usable, -, small, opened⟩ := ok_of_recordSealPadded built
  have mark : contentType ≠ Byte.ofNat 0 := by
    rcases known with rfl | rfl | rfl <;> decide
  unfold recordOpenTyped
  rw [usable]
  simp [bind, Except.bind, not_le.mpr small, opened, stripZeros_padded padLen mark, pure,
    Except.pure, known]

theorem recordOpen_recordSealPadded {content payload : List Byte} {padLen : Nat}
    (built : recordSealPadded prims key iv seq suite contentTypeHandshake content padLen =
      .ok payload) :
    recordOpen prims key iv seq suite contentTypeApplicationData payload = .ok content := by
  unfold recordOpen
  rw [recordOpenTyped_recordSealPadded (Or.inl rfl) built]
  rfl

end Sealing

/-! ### Executable primitives -/

namespace Transparent

theorem length_end (length : Nat) (input : List Byte) :
    ((List.replicate length (Byte.ofNat 0) ++ input).drop input.length).length = length := by
  simp

def primitives : Primitives where
  hash := fun digest input => ⟨_, length_end digest.outputLen input⟩
  hmac := fun digest _ input => ⟨_, length_end digest.outputLen input⟩
  aeadSeal := fun _ _ _ _ plaintext => some (plaintext ++ List.replicate tagLen (Byte.ofNat 0))
  aeadOpen := fun _ _ _ _ ciphertext => some (ciphertext.take (ciphertext.length - tagLen))
  sign := fun key _ => some key
  open_seal := by
    intro _ _ _ _ plaintext ciphertext isSealed
    obtain rfl := Option.some.inj isSealed
    rw [length_append, length_replicate, Nat.add_sub_cancel, take_left]
  length_seal := by
    intro _ _ _ _ plaintext ciphertext isSealed
    obtain rfl := Option.some.inj isSealed
    rw [length_append, length_replicate]

end Transparent

end Yip.Reality
