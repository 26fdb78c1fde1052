/-
This file models how the client reads the server's flight (`connect` of `stream/mod.rs`,
`find_finished_end` of `record.rs`) and proves that it reads a forged flight as a whole: the
forged records hold the end of `Finished` in the last of them, so none of them is left over.
-/

import Yip.Reality.Flight

namespace Yip.Reality

open Members List

def maxHandshakeMsgLen : Nat := 2 ^ 20

def maxServerFlightLen : Nat := 256 * 1024

/-! ### The end of the flight -/

def scanFinished : Nat → Nat → List Byte → Except Error (Option Nat)
  | 0, _, _ => .ok none
  | fuel + 1, pos, msgType :: first :: second :: third :: rest =>
    let length := ofBeBytes [first, second, third]
    if length > maxHandshakeMsgLen then
      .error (.protocol "server handshake message exceeds sane length bound")
    else if rest.length < length then .ok none
    else if msgType = hsTypeFinished then .ok (some (pos + 4 + length))
    else scanFinished fuel (pos + 4 + length) (rest.drop length)
  | _ + 1, _, _ => .ok none

def findFinishedEnd (hsFlight : List Byte) : Except Error (Option Nat) :=
  scanFinished hsFlight.length 0 hsFlight

/-! ### Reading -/

def takeRawRecord (stream : List Byte) : Option (Byte × List Byte × List Byte) := do
  let (recordType, stream) ← takeByte stream
  let (_, stream) ← takeUint 2 stream
  let (length, stream) ← takeUint 2 stream
  let (payload, stream) ← takeBytes length stream
  return (recordType, payload.toList, stream)

def readRawRecord (stream : List Byte) : Except Error (Byte × List Byte × List Byte) :=
  match takeRawRecord stream with
  | some record => .ok record
  | none => .error .io

section Client

variable (prims : Primitives) (keys : HandshakeKeys)

def readServerFlight : Nat → Nat → List Byte → List Byte → Except Error (List Byte × List Byte)
  | 0, _, _, _ => .error .io
  | fuel + 1, serverSeq, hsFlight, stream => do
    let (recordType, payload, stream) ← readRawRecord stream
    if recordType = contentTypeChangeCipherSpec then
      readServerFlight fuel serverSeq hsFlight stream
    else if recordType ≠ contentTypeApplicationData then
      .error (.protocol "expected an encrypted handshake record in the server flight")
    else
      let opened ← (recordOpen prims keys.serverKey keys.serverIv serverSeq keys.suite recordType
        payload).mapError .handshake
      let hsFlight := hsFlight ++ opened
      if hsFlight.length > maxServerFlightLen then
        .error (.protocol "server handshake flight exceeds sane bound")
      else
        match findFinishedEnd hsFlight with
        | .error error => .error error
        | .ok (some finishedEnd) => .ok (hsFlight.take finishedEnd, stream)
        | .ok none => readServerFlight fuel (serverSeq + 1) hsFlight stream

def connectFlight (transcriptChSh stream : List Byte) :
    Except Error (List Byte × ApplicationKeys × List Byte) := do
  let (hsFlight, rest) ← readServerFlight prims keys stream.length 0 [] stream
  let appKeys := deriveApplicationKeys prims keys.handshakeSecret
    (transcriptHash prims (transcriptChSh ++ hsFlight) keys.suite) keys.suite
  return (hsFlight, appKeys, rest)

end Client

/-! ### Where `Finished` is found -/

def IsShortMessage (msgType : Byte) (message : List Byte) : Prop :=
  ∃ body : List Byte, body.length ≤ maxHandshakeMsgLen ∧
    message = msgType :: (toBeBytes 3 body.length ++ body)

variable {msgType : Byte} {pos : Nat} {part : List Byte} {fuel : Nat}

theorem IsMessage.short {message : List Byte} (isMessage : IsMessage msgType message)
    (small : message.length ≤ maxHandshakeMsgLen) : IsShortMessage msgType message := by
  obtain ⟨body, -, rfl⟩ := isMessage
  rw [length_cons, length_append] at small
  exact ⟨body, by omega, rfl⟩

theorem scanFinished_cons {body : List Byte} (small : body.length ≤ maxHandshakeMsgLen) :
    scanFinished (fuel + 1) pos (msgType :: (toBeBytes 3 body.length ++ part)) =
      if part.length < body.length then .ok none
      else if msgType = hsTypeFinished then .ok (some (pos + 4 + body.length))
      else scanFinished fuel (pos + 4 + body.length) (part.drop body.length) := by
  obtain ⟨first, second, third, isLength⟩ : ∃ first second third,
      toBeBytes 3 body.length = [first, second, third] := ⟨_, _, _, rfl⟩
  have value : ofBeBytes [first, second, third] = body.length := by
    rw [← isLength, ofBeBytes_toBeBytes, Nat.mod_eq_of_lt]
    exact Nat.lt_of_le_of_lt small (by decide)
  rw [isLength]
  simp only [cons_append, nil_append, scanFinished, value]
  rw [if_neg (Nat.not_lt.mpr small)]

theorem scanFinished_cut {message : List Byte} (isMessage : IsShortMessage msgType message)
    (isPart : part <+: message) (missing : part.length < message.length) :
    scanFinished fuel pos part = .ok none := by
  obtain ⟨body, small, rfl⟩ := isMessage
  cases fuel with
  | zero => rfl
  | succ fuel =>
    rcases Nat.lt_or_ge part.length 4 with few | enough
    · match part, few with
      | [], _ => rfl
      | [_], _ => rfl
      | [_, _], _ => rfl
      | [_, _, _], _ => rfl
    · have headed : msgType :: toBeBytes 3 body.length <+: part := by
        refine prefix_of_prefix_length_le ⟨body, by simp⟩ isPart ?_
        rw [length_cons, length_toBeBytes]
        exact enough
      obtain ⟨rest, rfl⟩ := headed
      rw [cons_append, scanFinished_cons small, if_pos]
      simp only [length_cons, length_append, length_toBeBytes] at missing
      omega

theorem scanFinished_last {finished : List Byte} (last : IsShortMessage hsTypeFinished finished)
    (isPart : part <+: finished) (enough : part.length ≤ fuel) :
    scanFinished fuel pos part =
      .ok (if part = finished then some (pos + part.length) else none) := by
  rcases Nat.lt_or_ge part.length finished.length with missing | complete
  · rw [scanFinished_cut last isPart missing, if_neg]
    rintro rfl
    exact Nat.lt_irrefl _ missing
  · obtain rfl : part = finished := isPart.eq_of_length_le complete
    rw [if_pos rfl]
    obtain ⟨body, small, rfl⟩ := last
    obtain ⟨fuel, rfl⟩ : ∃ less, fuel = less + 1 :=
      ⟨fuel - 1, by rw [length_cons] at enough; omega⟩
    rw [scanFinished_cons small, if_neg (Nat.lt_irrefl _), if_pos rfl, length_cons,
      length_append, length_toBeBytes]
    congr 2
    omega

theorem scanFinished_part {messages : List (List Byte)} {finished : List Byte}
    (others : ∀ message ∈ messages, ∃ msgType, msgType ≠ hsTypeFinished ∧
      IsShortMessage msgType message) (last : IsShortMessage hsTypeFinished finished)
    (isPart : part <+: messages.flatten ++ finished) (enough : part.length ≤ fuel) :
    scanFinished fuel pos part =
      .ok (if part = messages.flatten ++ finished then some (pos + part.length) else none) := by
  induction messages generalizing part fuel pos with
  | nil =>
    rw [flatten_nil, nil_append] at isPart ⊢
    exact scanFinished_last last isPart enough
  | cons message messages ih =>
    obtain ⟨msgType, different, isMessage⟩ := others message mem_cons_self
    rw [flatten_cons, append_assoc] at isPart ⊢
    rcases Nat.lt_or_ge part.length message.length with missing | complete
    · have within : part <+: message :=
        prefix_of_prefix_length_le isPart ⟨_, rfl⟩ (Nat.le_of_lt missing)
      rw [scanFinished_cut isMessage within missing, if_neg]
      rintro rfl
      rw [length_append] at missing
      omega
    · obtain ⟨rest, rfl⟩ : message <+: part :=
        prefix_of_prefix_length_le ⟨_, rfl⟩ isPart complete
      obtain ⟨body, small, rfl⟩ := isMessage
      obtain ⟨fuel, rfl⟩ : ∃ less, fuel = less + 1 :=
        ⟨fuel - 1, by rw [cons_append, length_cons] at enough; omega⟩
      rw [prefix_append_right_inj] at isPart
      have shorter : rest.length ≤ fuel := by
        simp only [cons_append, length_cons, length_append] at enough
        omega
      have position : (msgType :: (toBeBytes 3 body.length ++ body) ++ rest).length =
          4 + body.length + rest.length := by
        simp only [length_append, length_cons, length_toBeBytes]
        omega
      rw [position]
      simp only [append_right_inj]
      rw [cons_append, append_assoc, scanFinished_cons small,
        if_neg (by rw [length_append]; omega), if_neg different, drop_left,
        ih (fun other member => others other (mem_cons_of_mem _ member))
          isPart shorter, Nat.add_assoc, Nat.add_assoc, Nat.add_assoc]

theorem findFinishedEnd_part {messages : ServerMessages}
    (ee : IsMessage hsTypeEncryptedExtensions messages.encryptedExtensions)
    (certificate : IsMessage hsTypeCertificate messages.certificate)
    (certificateVerify : IsMessage hsTypeCertificateVerify messages.certificateVerify)
    (finished : IsMessage hsTypeFinished messages.finished)
    (small : messages.stream.length ≤ maxHandshakeMsgLen) (isPart : part <+: messages.stream) :
    findFinishedEnd part = .ok (if part = messages.stream then some part.length else none) := by
  have lengths : messages.stream.length = messages.encryptedExtensions.length +
      messages.certificate.length + messages.certificateVerify.length +
        messages.finished.length := by
    simp only [ServerMessages.stream, length_append]
  have whole : messages.stream = [messages.encryptedExtensions, messages.certificate,
      messages.certificateVerify].flatten ++ messages.finished := by
    simp only [ServerMessages.stream, flatten_cons, flatten_nil, append_nil,
      append_assoc]
  rw [whole] at isPart ⊢
  rw [findFinishedEnd, scanFinished_part _ (finished.short (by omega)) isPart (Nat.le_refl _),
    Nat.zero_add]
  intro message member
  simp only [mem_cons, not_mem_nil, or_false] at member
  obtain rfl | rfl | rfl := member
  · exact ⟨_, by decide, ee.short (by omega)⟩
  · exact ⟨_, by decide, certificate.short (by omega)⟩
  · exact ⟨_, by decide, certificateVerify.short (by omega)⟩

/-! ### A forged flight is read -/

theorem readRawRecord_append {recordType : Byte} {payload : List Byte}
    (small : payload.length < 65536) (stream : List Byte) :
    readRawRecord (recordType :: (toBeBytes 2 legacyRecordVersion ++ toBeBytes 2 payload.length) ++
      payload ++ stream) = .ok (recordType, payload, stream) := by
  have version : legacyRecordVersion < 256 ^ 2 := by decide
  rw [readRawRecord, cons_append, cons_append, append_assoc, append_assoc,
    takeRawRecord, takeByte, Option.bind_eq_bind, Option.bind_some]
  simp only [takeUint_append 2 version, takeUint_append 2 small, takeBytes_length_append,
    Option.bind_eq_bind, Option.bind_some]
  rfl

section Forged

variable {prims : Primitives} {keys : HandshakeKeys}

variable {seq : Nat} {hsFlight : List Byte} {fuel : Nat}

theorem readServerFlight_record {chunk payload stream : List Byte} {padLen : Nat}
    (isSealed : recordSealPadded prims keys.serverKey keys.serverIv seq keys.suite
      contentTypeHandshake chunk padLen = .ok payload)
    (fits : (hsFlight ++ chunk).length ≤ maxServerFlightLen) :
    readServerFlight prims keys (fuel + 1) seq hsFlight (recordBytes payload ++ stream) =
      match findFinishedEnd (hsFlight ++ chunk) with
      | .error error => .error error
      | .ok (some finishedEnd) => .ok ((hsFlight ++ chunk).take finishedEnd, stream)
      | .ok none => readServerFlight prims keys fuel (seq + 1) (hsFlight ++ chunk) stream := by
  obtain ⟨-, -, -, small, -⟩ := ok_of_recordSealPadded isSealed
  have encrypted : contentTypeApplicationData ≠ contentTypeChangeCipherSpec := by decide
  rw [readServerFlight, recordBytes, readRawRecord_append small]
  simp only [bind, Except.bind, if_neg encrypted, ne_eq, not_true_eq_false, if_false,
    recordOpen_recordSealPadded isSealed, Except.mapError, if_neg (Nat.not_lt.mpr fits)]

theorem readServerFlight_seals {whole : List Byte} (small : whole.length ≤ maxServerFlightLen)
    (ends : ∀ part, part <+: whole →
      findFinishedEnd part = .ok (if part = whole then some part.length else none))
    {chunks payloads : List (List Byte)} {rest : List Byte}
    (seals : Seals prims keys seq chunks payloads) (all : hsFlight ++ chunks.flatten = whole)
    (some : chunks ≠ [])
    (early : ∀ count < chunks.length,
      (hsFlight ++ (chunks.take count).flatten).length < whole.length)
    (enough : payloads.length ≤ fuel) :
    readServerFlight prims keys fuel seq hsFlight (payloads.flatMap recordBytes ++ rest) =
      .ok (whole, rest) := by
  induction chunks generalizing payloads hsFlight seq fuel with
  | nil => exact absurd rfl some
  | cons chunk chunks ih =>
    cases payloads with
    | nil => exact seals.elim
    | cons payload payloads =>
    obtain ⟨⟨padLen, isSealed⟩, seals⟩ := seals
    obtain ⟨fuel, rfl⟩ : ∃ less, fuel = less + 1 :=
      ⟨fuel - 1, by rw [length_cons] at enough; omega⟩
    have isPart : hsFlight ++ chunk <+: whole :=
      ⟨chunks.flatten, by rw [← all, flatten_cons, append_assoc]⟩
    rw [flatMap_cons, append_assoc,
      readServerFlight_record isSealed (Nat.le_trans isPart.length_le small), ends _ isPart]
    cases chunks with
    | nil =>
      have complete : hsFlight ++ chunk = whole := by
        rw [← all, flatten_cons, flatten_nil, append_nil]
      cases payloads with
      | nil =>
        rw [if_pos complete, complete]
        show Except.ok (whole.take whole.length, rest) = _
        rw [take_length]
      | cons payload payloads => exact seals.elim
    | cons next chunks =>
      have incomplete : hsFlight ++ chunk ≠ whole := by
        intro complete
        have missing := early 1 (by simp)
        rw [take_succ_cons, take_zero, flatten_cons, flatten_nil,
          append_nil, complete] at missing
        exact Nat.lt_irrefl _ missing
      rw [if_neg incomplete]
      refine ih seals ?_ (cons_ne_nil _ _) ?_ ?_
      · rw [append_assoc]
        exact all
      · intro count within
        have missing := early (count + 1) (Nat.succ_lt_succ within)
        rw [take_succ_cons, flatten_cons, ← append_assoc] at missing
        exact missing
      · exact Nat.le_of_succ_le_succ enough

theorem readServerFlight_changeCipherSpec {stream : List Byte} :
    readServerFlight prims keys (fuel + 1) seq hsFlight (changeCipherSpecRecord ++ stream) =
      readServerFlight prims keys fuel seq hsFlight stream := by
  have isRecord : changeCipherSpecRecord = contentTypeChangeCipherSpec ::
      (toBeBytes 2 legacyRecordVersion ++ toBeBytes 2 [Byte.ofNat 1].length) ++ [Byte.ofNat 1] := by
    decide
  rw [readServerFlight, isRecord, readRawRecord_append (by decide)]
  simp only [bind, Except.bind, if_true]

theorem length_le_flatMap_recordBytes (payloads : List (List Byte)) :
    payloads.length ≤ (payloads.flatMap recordBytes).length := by
  induction payloads with
  | nil => exact Nat.zero_le _
  | cons payload payloads ih =>
    rw [flatMap_cons, length_append, length_cons, recordBytes, cons_append,
      length_cons]
    omega

/-- The flight is one record for each captured length, of that length. If the messages are within
the client's bound, the client reads these records and no more, has the messages of them and
derives the keys the server has. -/
theorem forged_flight_accepted {recordLengths : List Nat} {intermediatesDer : List (List Byte)}
    {forgedLeafDer signingKey transcriptChSh : List Byte} {flight : ServerFlight}
    (emitted : emitServerFlight prims keys recordLengths intermediatesDer forgedLeafDer signingKey
      transcriptChSh = .ok flight) :
    ∃ messages, serverMessages prims keys intermediatesDer forgedLeafDer signingKey
        transcriptChSh = .ok messages ∧
      (∃ records : List (List Byte), records.map List.length = recordLengths ∧
        flight.wire = changeCipherSpecRecord ++ records.flatMap recordBytes) ∧
      (messages.stream.length ≤ maxServerFlightLen → ∀ rest,
        connectFlight prims keys transcriptChSh (flight.wire ++ rest) =
          .ok (messages.stream, flight.appKeys, rest)) := by
  obtain ⟨messages, built, -⟩ := bind_eq_ok_iff.mp emitted
  obtain ⟨some, isKeys, payloads, lengths, isWire, seals, all⟩ :=
    emitServerFlight_eq_ok built emitted
  refine ⟨messages, built, ⟨payloads, lengths, isWire⟩, fun small rest => ?_⟩
  obtain ⟨ee, certificate, certificateVerify, finished⟩ := serverMessages_eq_ok built
  have ends : ∀ part, part <+: messages.stream →
      findFinishedEnd part = .ok (if part = messages.stream then .some part.length else none) :=
    fun part => findFinishedEnd_part ee certificate certificateVerify finished
      (Nat.le_trans small (by decide))
  have content : messages.stream ≠ [] := by
    obtain ⟨body, -, isFinished⟩ := finished
    rw [ServerMessages.stream, isFinished]
    simp
  have read : readServerFlight prims keys (flight.wire ++ rest).length 0 [] (flight.wire ++ rest) =
      .ok (messages.stream, rest) := by
    obtain ⟨fuel, isFuel⟩ : ∃ fuel, (flight.wire ++ rest).length = fuel + 1 ∧
        payloads.length ≤ fuel := by
      have bound := length_le_flatMap_recordBytes payloads
      refine ⟨5 + (payloads.flatMap recordBytes ++ rest).length, ?_, ?_⟩
      · rw [isWire, append_assoc, length_append]
        show 6 + _ = _
        omega
      · rw [length_append]
        omega
    rw [isFuel.1, isWire, append_assoc, readServerFlight_changeCipherSpec]
    refine readServerFlight_seals small ends seals all ?_ ?_ isFuel.2
    · rw [← length_pos_iff, Chunking.length_pieces, length_map, length_pos_iff]
      exact some
    · intro count early
      rw [Chunking.length_pieces] at early
      exact Chunking.length_flatten_take_lt content early
  rw [connectFlight, read]
  simp only [bind, Except.bind, isKeys]
  rfl

end Forged

/-! ### An executable server -/

namespace Transparent

def handshakeKeys : HandshakeKeys :=
  deriveHandshakeKeys primitives (List.replicate 32 (Byte.ofNat 7)) [] suiteAes128GcmSha256

def leaf : List Byte := [1, 2, 3].map Byte.ofNat

/-- The 68 bytes of the messages in three records. -/
theorem forged_flight_accepted_three_records :
    ∃ (flight : ServerFlight) (messages : ServerMessages),
      emitServerFlight primitives handshakeKeys [40, 20, 100] [] leaf
        [Byte.ofNat 4, Byte.ofNat 5] [] = .ok flight ∧ messages.stream.length = 68 ∧
      connectFlight primitives handshakeKeys [] (flight.wire ++ [Byte.ofNat 6]) =
        .ok (messages.stream, flight.appKeys, [Byte.ofNat 6]) := by
  have emits : (emitServerFlight primitives handshakeKeys [40, 20, 100] []
      leaf [Byte.ofNat 4, Byte.ofNat 5] []).toOption.isSome := by
    decide +kernel
  have measured : (serverMessages primitives handshakeKeys [] leaf
      [Byte.ofNat 4, Byte.ofNat 5] []).toOption.map (·.stream.length) = some 68 := by
    decide +kernel
  cases emitted : emitServerFlight primitives handshakeKeys [40, 20, 100] []
      leaf [Byte.ofNat 4, Byte.ofNat 5] [] with
  | error error =>
    rw [emitted] at emits
    cases emits
  | ok flight =>
    obtain ⟨messages, built, -, accepted⟩ := forged_flight_accepted emitted
    rw [built] at measured
    have length : messages.stream.length = 68 := Option.some.inj measured
    exact ⟨flight, messages, rfl, length, accepted (by rw [length]; decide) _⟩

end Transparent

end Yip.Reality
