/-
This file models the server's encrypted flight of TLS 1.3 as the relay forges it (`flight.rs`,
`record.rs`): the four handshake messages and the framing that gives the records the lengths of
the captured ones.
-/

import Yip.Reality.Handshake
import Yip.Lib.Chunking

namespace Yip.Reality

open Members

/-! ### Records -/

def contentTypeChangeCipherSpec : Byte := Byte.ofNat 0x14

def legacyRecordVersion : Nat := 0x0303

def changeCipherSpecRecord : List Byte := [0x14, 3, 3, 0, 1, 1].map Byte.ofNat

def recordHeader (contentType : Byte) (legacyVersion payloadLen : Nat) :
    Except Error (List Byte) :=
  if payloadLen < 65536 then
    .ok (contentType :: (toBeBytes 2 legacyVersion ++ toBeBytes 2 payloadLen))
  else .error (.protocol "record length exceeds a u16")

/-! ### Handshake messages -/

def u24Len (length : Nat) : Except Error (List Byte) :=
  if length > 0xFFFFFF then .error .messageTooLarge else .ok (toBeBytes 3 length)

def handshakeMessage (msgType : Byte) (body : List Byte) : Except Error (List Byte) := do
  let length ← u24Len body.length
  return msgType :: (length ++ body)

def certificateEntry (der : List Byte) : Except Error (List Byte) := do
  let length ← u24Len der.length
  return length ++ der ++ [Byte.ofNat 0, Byte.ofNat 0]

def hsTypeEncryptedExtensions : Byte := Byte.ofNat 0x08

def hsTypeCertificate : Byte := Byte.ofNat 0x0b

def hsTypeCertificateVerify : Byte := Byte.ofNat 0x0f

def hsTypeFinished : Byte := Byte.ofNat 0x14

def certificateEntries : List (List Byte) → Except Error (List Byte)
  | [] => .ok []
  | der :: rest => do
    let entry ← certificateEntry der
    let entries ← certificateEntries rest
    return entry ++ entries

structure ServerMessages where
  encryptedExtensions : List Byte
  certificate : List Byte
  certificateVerify : List Byte
  finished : List Byte

def ServerMessages.stream (messages : ServerMessages) : List Byte :=
  messages.encryptedExtensions ++ messages.certificate ++ messages.certificateVerify ++
    messages.finished

section Emit

variable (prims : Primitives)

def signCertificateVerify (signingKey hashThroughCertificate : List Byte) :
    Except Error (List Byte) :=
  match prims.sign signingKey (List.replicate 64 (Byte.ofNat 0x20) ++
    asciiBytes "TLS 1.3, server CertificateVerify" ++ [Byte.ofNat 0] ++
      hashThroughCertificate) with
  | some signature => .ok signature
  | none => .error (.handshake .crypto)

def serverMessages (keys : HandshakeKeys) (intermediatesDer : List (List Byte))
    (forgedLeafDer signingKey transcriptChSh : List Byte) : Except Error ServerMessages := do
  let ee ← handshakeMessage hsTypeEncryptedExtensions [Byte.ofNat 0, Byte.ofNat 0]
  let leaf ← certificateEntry forgedLeafDer
  let others ← certificateEntries intermediatesDer
  let listLen ← u24Len (leaf ++ others).length
  let certificate ← handshakeMessage hsTypeCertificate
    (Byte.ofNat 0 :: (listLen ++ (leaf ++ others)))
  let transcript := transcriptChSh ++ ee ++ certificate
  let signature ← signCertificateVerify prims signingKey
    (transcriptHash prims transcript keys.suite)
  if signature.length ≥ 65536 then .error (.handshake .recordTooLarge)
  else
    let certificateVerify ← handshakeMessage hsTypeCertificateVerify
      (toBeBytes 2 0x0403 ++ toBeBytes 2 signature.length ++ signature)
    let transcript := transcript ++ certificateVerify
    let verifyData := finishedVerifyData prims keys.serverHsTraffic
      (transcriptHash prims transcript keys.suite) keys.suite
    let finished ← handshakeMessage hsTypeFinished verifyData
    return ⟨ee, certificate, certificateVerify, finished⟩

structure ServerFlight where
  wire : List Byte
  appKeys : ApplicationKeys

def frameRecords (keys : HandshakeKeys) : Nat → List Nat → List Byte →
    Except Error (List Byte × List Byte)
  | _, [], content => .ok ([], content)
  | seq, recordLen :: later, content =>
    if recordLen < 17 then .error (.protocol "record length below the 17-byte AEAD floor")
    else do
      let cap := recordLen - 17
      let chunkLen := min cap (content.length - later.length)
      let ciphertext ← (recordSealPadded prims keys.serverKey keys.serverIv seq keys.suite
        contentTypeHandshake (content.take chunkLen) (cap - chunkLen)).mapError .handshake
      let header ← recordHeader contentTypeApplicationData legacyRecordVersion ciphertext.length
      let (wire, left) ← frameRecords keys (seq + 1) later (content.drop chunkLen)
      return (header ++ ciphertext ++ wire, left)

def emitServerFlight (keys : HandshakeKeys) (recordLengths : List Nat)
    (intermediatesDer : List (List Byte)) (forgedLeafDer signingKey transcriptChSh : List Byte) :
    Except Error ServerFlight := do
  let messages ←
    serverMessages prims keys intermediatesDer forgedLeafDer signingKey transcriptChSh
  let appKeys := deriveApplicationKeys prims keys.handshakeSecret
    (transcriptHash prims (transcriptChSh ++ messages.stream) keys.suite) keys.suite
  if recordLengths = [] then .error (.protocol "empty record_lengths in captured flight template")
  else
    let (records, left) ← frameRecords prims keys 0 recordLengths messages.stream
    if left ≠ [] then .error .flightTooLarge
    else return ⟨changeCipherSpecRecord ++ records, appKeys⟩

end Emit

/-! ### What the records hold -/

def recordBytes (payload : List Byte) : List Byte :=
  contentTypeApplicationData ::
    (toBeBytes 2 legacyRecordVersion ++ toBeBytes 2 payload.length) ++ payload

def Seals (prims : Primitives) (keys : HandshakeKeys) : Nat → List (List Byte) →
    List (List Byte) → Prop
  | _, [], [] => True
  | seq, chunk :: chunks, payload :: payloads =>
    (∃ padLen, recordSealPadded prims keys.serverKey keys.serverIv seq keys.suite
      contentTypeHandshake chunk padLen = .ok payload) ∧
    Seals prims keys (seq + 1) chunks payloads
  | _, _, _ => False

variable {prims : Primitives} {keys : HandshakeKeys}

theorem recordHeader_eq_ok {payload header : List Byte}
    (built : recordHeader contentTypeApplicationData legacyRecordVersion payload.length =
      .ok header) : header ++ payload = recordBytes payload := by
  unfold recordHeader at built
  split at built
  · obtain rfl := Except.ok.inj built
    rfl
  · cases built

theorem mapError_eq_ok {Problem Other Value : Type} {change : Problem → Other}
    {result : Except Problem Value} {value : Value}
    (succeeded : result.mapError change = .ok value) : result = .ok value := by
  cases result with
  | error error => cases succeeded
  | ok same =>
    obtain rfl := Except.ok.inj succeeded
    rfl

theorem frameRecords_eq_ok {seq : Nat} {recordLengths : List Nat} {content wire left : List Byte}
    (framed : frameRecords prims keys seq recordLengths content = .ok (wire, left)) :
    left = Chunking.leftOver (recordLengths.map (· - 17)) content ∧
      ∃ payloads : List (List Byte), payloads.map List.length = recordLengths ∧
        wire = payloads.flatMap recordBytes ∧
        Seals prims keys seq (Chunking.pieces (recordLengths.map (· - 17)) content) payloads := by
  induction recordLengths generalizing seq content wire left with
  | nil =>
    obtain ⟨rfl, rfl⟩ := Prod.mk.inj (Except.ok.inj framed)
    exact ⟨rfl, [], rfl, rfl, trivial⟩
  | cons recordLen later ih =>
    rw [frameRecords] at framed
    split at framed
    · cases framed
    rename_i above
    obtain ⟨payload, isSealed, rest⟩ := bind_eq_ok_iff.mp framed
    obtain ⟨header, isHeader, rest⟩ := bind_eq_ok_iff.mp rest
    obtain ⟨⟨others, behind⟩, following, result⟩ := bind_eq_ok_iff.mp rest
    obtain ⟨rfl, rfl⟩ := Prod.mk.inj (Except.ok.inj result)
    have piece : Chunking.pieceLength (recordLen - 17) (later.map (· - 17)) content =
        min (recordLen - 17) (content.length - later.length) := by
      rw [Chunking.pieceLength, List.length_map]
    obtain ⟨isLeft, payloads, lengths, isWire, seals⟩ := ih following
    have isSealed := mapError_eq_ok isSealed
    obtain ⟨-, -, length, -⟩ := ok_of_recordSealPadded isSealed
    refine ⟨?_, payload :: payloads, ?_, ?_, ?_⟩
    · rw [List.map_cons, Chunking.leftOver, piece]
      exact isLeft
    · rw [List.map_cons, lengths, length, List.length_take]
      congr 1
      omega
    · rw [List.flatMap_cons, ← isWire, ← recordHeader_eq_ok isHeader]
    · rw [List.map_cons, Chunking.pieces, piece]
      exact ⟨⟨_, isSealed⟩, seals⟩

def IsMessage (msgType : Byte) (message : List Byte) : Prop :=
  ∃ body : List Byte, body.length < 256 ^ 3 ∧
    message = msgType :: (toBeBytes 3 body.length ++ body)

theorem handshakeMessage_eq_ok {msgType : Byte} {body message : List Byte}
    (built : handshakeMessage msgType body = .ok message) : IsMessage msgType message := by
  obtain ⟨length, measured, result⟩ := bind_eq_ok_iff.mp built
  unfold u24Len at measured
  split at measured
  · cases measured
  · rename_i small
    obtain rfl := Except.ok.inj measured
    exact ⟨body, by omega, (Except.ok.inj result).symm⟩

variable {intermediatesDer : List (List Byte)}

theorem serverMessages_eq_ok {forgedLeafDer signingKey transcriptChSh : List Byte}
    {messages : ServerMessages}
    (built : serverMessages prims keys intermediatesDer forgedLeafDer signingKey transcriptChSh =
      .ok messages) :
    IsMessage hsTypeEncryptedExtensions messages.encryptedExtensions ∧
      IsMessage hsTypeCertificate messages.certificate ∧
      IsMessage hsTypeCertificateVerify messages.certificateVerify ∧
      IsMessage hsTypeFinished messages.finished := by
  obtain ⟨ee, isEe, rest⟩ := bind_eq_ok_iff.mp built
  obtain ⟨leaf, -, rest⟩ := bind_eq_ok_iff.mp rest
  obtain ⟨others, -, rest⟩ := bind_eq_ok_iff.mp rest
  obtain ⟨listLen, -, rest⟩ := bind_eq_ok_iff.mp rest
  obtain ⟨certificate, isCertificate, rest⟩ := bind_eq_ok_iff.mp rest
  obtain ⟨signature, -, rest⟩ := bind_eq_ok_iff.mp rest
  split at rest
  · cases rest
  obtain ⟨certificateVerify, isVerify, rest⟩ := bind_eq_ok_iff.mp rest
  obtain ⟨finished, isFinished, result⟩ := bind_eq_ok_iff.mp rest
  obtain rfl := Except.ok.inj result
  exact ⟨handshakeMessage_eq_ok isEe, handshakeMessage_eq_ok isCertificate,
    handshakeMessage_eq_ok isVerify, handshakeMessage_eq_ok isFinished⟩

theorem emitServerFlight_eq_ok {recordLengths : List Nat}
    {forgedLeafDer signingKey transcriptChSh : List Byte} {messages : ServerMessages}
    {flight : ServerFlight}
    (built : serverMessages prims keys intermediatesDer forgedLeafDer signingKey transcriptChSh =
      .ok messages)
    (emitted : emitServerFlight prims keys recordLengths intermediatesDer forgedLeafDer signingKey
      transcriptChSh = .ok flight) :
    recordLengths ≠ [] ∧
      flight.appKeys = deriveApplicationKeys prims keys.handshakeSecret
        (transcriptHash prims (transcriptChSh ++ messages.stream) keys.suite) keys.suite ∧
      ∃ payloads : List (List Byte), payloads.map List.length = recordLengths ∧
        flight.wire = changeCipherSpecRecord ++ payloads.flatMap recordBytes ∧
        Seals prims keys 0 (Chunking.pieces (recordLengths.map (· - 17)) messages.stream)
          payloads ∧
        (Chunking.pieces (recordLengths.map (· - 17)) messages.stream).flatten =
          messages.stream := by
  obtain ⟨same, isSame, rest⟩ := bind_eq_ok_iff.mp emitted
  obtain rfl := Except.ok.inj (isSame.symm.trans built)
  dsimp only at rest
  split at rest
  · cases rest
  rename_i some
  obtain ⟨⟨records, left⟩, framed, result⟩ := bind_eq_ok_iff.mp rest
  dsimp only at result
  split at result
  · cases result
  rename_i none
  obtain rfl := Except.ok.inj result
  obtain ⟨isLeft, payloads, lengths, isWire, seals⟩ := frameRecords_eq_ok framed
  have all := Chunking.flatten_pieces_append (recordLengths.map (· - 17)) same.stream
  rw [← isLeft, not_not.mp none, List.append_nil] at all
  exact ⟨some, rfl, payloads, lengths, by rw [isWire], seals, all⟩

end Yip.Reality
