/-
This file models the wire codec of `yip-wire` and the glue of `wire_glue.rs` that carries one
FEC symbol in one frame.
-/

import Yip.Transport.Fec

namespace Yip.Wire

open Transport List

abbrev Sip := List Byte → List Byte → BitVec 64

/-- A frame on the wire before it is masked. -/
structure Frame where
  connTag : Nat
  objectId : Nat
  payloadId : PayloadId
  flags : Byte
  payload : List Byte
  deriving DecidableEq, Repr

def headerLen : Nat := 15

def tagLen : Nat := 8

def minFrame : Nat := headerLen + tagLen

def writeHeader (frame : Frame) : List Byte :=
  toBeBytes 8 frame.connTag ++ toBeBytes 2 frame.objectId ++
    [frame.payloadId.codec, frame.payloadId.indexHi, frame.payloadId.indexLo,
      frame.payloadId.scheme] ++ [frame.flags]

def readHeader (bytes : List Byte) : Nat × Nat × PayloadId × Byte :=
  (ofBeBytes (bytes.take 8), ofBeBytes ((bytes.drop 8).take 2),
    ⟨bytes.getD 10 0, bytes.getD 11 0, bytes.getD 12 0, bytes.getD 13 0⟩, bytes.getD 14 0)

def authTag (sip : Sip) (authKey header payload : List Byte) : List Byte :=
  toBeBytes 8 (sip authKey (header ++ payload)).toNat

/-- The mask of the header, from a sample of the payload. -/
def headerMask (sip : Sip) (hpKey sample : List Byte) : List Byte :=
  toBeBytes 8 (sip hpKey (sample ++ toBeBytes 4 0)).toNat ++
    (toBeBytes 8 (sip hpKey (sample ++ toBeBytes 4 1)).toNat).take 7

def xorInPlace (buf mask : List Byte) : List Byte := List.zipWith Byte.xor buf mask

inductive WireError where
  | authFailed
  | malformed
  deriving DecidableEq, Repr

/-- The two keys of a frame. -/
structure Codec where
  authKey : List Byte
  hpKey : List Byte
  deriving DecidableEq, Repr

namespace Codec

/-- Writes a frame: header, payload and tag, the header masked. -/
def frame (sip : Sip) (codec : Codec) (frame : Frame) : List Byte :=
  let header := writeHeader frame
  let tag := authTag sip codec.authKey header frame.payload
  let mask := headerMask sip codec.hpKey tag
  xorInPlace header mask ++ frame.payload ++ tag

/-- Unmasks a frame and checks its tag. -/
def deframe (sip : Sip) (codec : Codec) (datagram : List Byte) : Except WireError Frame :=
  if datagram.length < minFrame then .error .malformed
  else
    let tag := datagram.drop (datagram.length - tagLen)
    let mask := headerMask sip codec.hpKey tag
    let header := xorInPlace (datagram.take headerLen) mask
    let payload := (datagram.take (datagram.length - tagLen)).drop headerLen
    if authTag sip codec.authKey header payload ≠ tag then .error .authFailed
    else
      let (connTag, objectId, payloadId, flags) := readHeader header
      .ok ⟨connTag, objectId, payloadId, flags, payload⟩

end Codec

/-! ### One symbol in one frame -/

def classToFlags : FlowClass → Byte
  | .realtime => Byte.ofNat 0
  | .bulk => Byte.ofNat 1
  | .default => Byte.ofNat 2

def flagsToClass (flags : Byte) : FlowClass :=
  match flags.toNat % 4 with
  | 0 => .realtime
  | 1 => .bulk
  | _ => .default

def symbolToFrame (connTag : Nat) (symbol : Symbol) (counter : Nat) (flow : FlowClass) : Frame where
  connTag := connTag
  objectId := symbol.objectId
  payloadId := symbol.payloadId
  flags := classToFlags flow
  payload := toBeBytes 8 counter ++ toBeBytes 4 symbol.objectSize ++ symbol.data

def frameToSymbol (frame : Frame) : Option (Symbol × Nat × FlowClass) :=
  if frame.payload.length < 12 then none
  else
    some (⟨frame.objectId, ofBeBytes ((frame.payload.drop 8).take 4), frame.payloadId,
        frame.payload.drop 12⟩,
      ofBeBytes (frame.payload.take 8), flagsToClass frame.flags)

/-! ### Round trip -/

def Frame.truncated (frame : Frame) : Frame :=
  { frame with connTag := frame.connTag % 256 ^ 8, objectId := frame.objectId % 256 ^ 2 }

theorem length_writeHeader (frame : Frame) : (writeHeader frame).length = headerLen := by
  simp [writeHeader, headerLen]

theorem length_authTag (sip : Sip) (authKey header payload : List Byte) :
    (authTag sip authKey header payload).length = tagLen :=
  length_toBeBytes _ _

theorem length_headerMask (sip : Sip) (hpKey sample : List Byte) :
    (headerMask sip hpKey sample).length = headerLen := by
  simp [headerMask, headerLen]

theorem take_writeHeader (frame : Frame) :
    (writeHeader frame).take 8 = toBeBytes 8 frame.connTag := by
  simp [writeHeader]

theorem take_drop_writeHeader (frame : Frame) :
    ((writeHeader frame).drop 8).take 2 = toBeBytes 2 frame.objectId := by
  simp [writeHeader]

theorem readHeader_writeHeader (frame : Frame) :
    readHeader (writeHeader frame) =
      (frame.truncated.connTag, frame.truncated.objectId, frame.payloadId, frame.flags) := by
  have rest : (writeHeader frame).drop 10 = [frame.payloadId.codec, frame.payloadId.indexHi,
      frame.payloadId.indexLo, frame.payloadId.scheme, frame.flags] := by
    rw [writeHeader, append_assoc]
    exact drop_left' (by simp)
  have entry : ∀ i, (writeHeader frame).getD (10 + i) 0 =
      [frame.payloadId.codec, frame.payloadId.indexHi, frame.payloadId.indexLo,
        frame.payloadId.scheme, frame.flags].getD i 0 := by
    intro i
    rw [← rest, getD_eq_getElem?_getD, getD_eq_getElem?_getD, getElem?_drop]
  unfold readHeader
  rw [take_writeHeader, take_drop_writeHeader, ofBeBytes_toBeBytes, ofBeBytes_toBeBytes, entry 0,
    entry 1, entry 2, entry 3, entry 4]
  rfl

theorem xorInPlace_twice (buf mask : List Byte) (length : buf.length ≤ mask.length) :
    xorInPlace (xorInPlace buf mask) mask = buf := by
  have self : ∀ a b : Byte, (a.xor b).xor b = a := by
    intro a b
    apply Byte.ext
    rw [Byte.bits_xor, Byte.bits_xor, BitVec.xor_assoc, BitVec.xor_self, BitVec.xor_zero]
  apply ext_getElem
  · simp [xorInPlace, length]
  · intro i _ inside
    simp [xorInPlace, self]

theorem deframe_frame (sip : Sip) (codec : Codec) (frame : Frame) :
    codec.deframe sip (codec.frame sip frame) = .ok frame.truncated := by
  let header := writeHeader frame
  let tag := authTag sip codec.authKey header frame.payload
  let masked := xorInPlace header (headerMask sip codec.hpKey tag)
  have tagLength : tag.length = tagLen := length_authTag _ _ _ _
  have maskedLength : masked.length = headerLen := by
    simp [masked, header, xorInPlace, length_writeHeader, length_headerMask]
  have datagram : codec.frame sip frame = masked ++ frame.payload ++ tag := rfl
  have body : (masked ++ frame.payload ++ tag).length - tagLen =
      (masked ++ frame.payload).length := by
    rw [length_append, tagLength, Nat.add_sub_cancel]
  have long : ¬ (masked ++ frame.payload ++ tag).length < minFrame := by
    simp only [length_append, tagLength, maskedLength, minFrame]
    omega
  have takenHeader : (masked ++ frame.payload ++ tag).take headerLen = masked := by
    rw [append_assoc]
    exact take_left' maskedLength
  have unmasked : xorInPlace masked (headerMask sip codec.hpKey tag) = header :=
    xorInPlace_twice _ _ (by rw [length_writeHeader, length_headerMask])
  have takenPayload : ((masked ++ frame.payload ++ tag).take
      (masked ++ frame.payload).length).drop headerLen = frame.payload := by
    rw [take_left, drop_left' maskedLength]
  unfold Codec.deframe
  rw [datagram, if_neg long, body, drop_left, takenHeader, takenPayload]
  dsimp only
  rw [unmasked, if_neg (not_not.mpr rfl), readHeader_writeHeader frame]
  rfl

theorem flagsToClass_classToFlags (flow : FlowClass) : flagsToClass (classToFlags flow) = flow := by
  cases flow <;> rfl

theorem frameToSymbol_symbolToFrame (connTag counter : Nat) (symbol : Symbol) (flow : FlowClass) :
    frameToSymbol (symbolToFrame connTag symbol counter flow).truncated =
      some ({ symbol with
          objectId := symbol.objectId % 256 ^ 2
          objectSize := symbol.objectSize % 256 ^ 4 }, counter % 256 ^ 8, flow) := by
  have long : ¬ (symbolToFrame connTag symbol counter flow).truncated.payload.length < 12 := by
    simp only [Frame.truncated, symbolToFrame, length_append, length_toBeBytes]
    omega
  have first : (symbolToFrame connTag symbol counter flow).truncated.payload.take 8 =
      toBeBytes 8 counter := by
    simp [Frame.truncated, symbolToFrame]
  have second : ((symbolToFrame connTag symbol counter flow).truncated.payload.drop 8).take 4 =
      toBeBytes 4 symbol.objectSize := by
    simp [Frame.truncated, symbolToFrame]
  have rest : (symbolToFrame connTag symbol counter flow).truncated.payload.drop 12 =
      symbol.data :=
    drop_left' (by simp)
  unfold frameToSymbol
  rw [if_neg long, first, second, rest, ofBeBytes_toBeBytes, ofBeBytes_toBeBytes]
  simp only [Frame.truncated, symbolToFrame, flagsToClass_classToFlags]

/-! ### Canonicity -/

theorem writeHeader_readHeader (header payload : List Byte) (length : header.length = headerLen) :
    writeHeader ⟨(readHeader header).1, (readHeader header).2.1, (readHeader header).2.2.1,
      (readHeader header).2.2.2, payload⟩ = header := by
  have tagBytes : toBeBytes 8 (ofBeBytes (header.take 8)) = header.take 8 := by
    have bytes := toBeBytes_ofBeBytes (header.take 8)
    rwa [length_take, length, show min 8 headerLen = 8 by decide] at bytes
  have idBytes : toBeBytes 2 (ofBeBytes ((header.drop 8).take 2)) = (header.drop 8).take 2 := by
    have bytes := toBeBytes_ofBeBytes ((header.drop 8).take 2)
    rwa [length_take, length_drop, length,
      show min 2 (headerLen - 8) = 2 by decide] at bytes
  have rest : header.drop 10 = [header.getD 10 0, header.getD 11 0, header.getD 12 0,
      header.getD 13 0, header.getD 14 0] := by
    apply ext_getElem
    · simp [length, headerLen]
    · intro i inside _
      rw [length_drop, length, headerLen] at inside
      rw [getElem_drop]
      interval_cases i <;> simp [length, headerLen]
  have parts : header = header.take 8 ++ (header.drop 8).take 2 ++ header.drop 10 := by
    rw [append_assoc, show header.drop 10 = (header.drop 8).drop 2 by rw [drop_drop],
      take_append_drop, take_append_drop]
  conv_rhs => rw [parts, rest]
  simp only [writeHeader, readHeader, tagBytes, idBytes, append_assoc, cons_append,
    nil_append]

theorem frame_of_deframe (sip : Sip) (codec : Codec) (datagram : List Byte) (frame : Frame)
    (accepted : codec.deframe sip datagram = .ok frame) : codec.frame sip frame = datagram := by
  unfold Codec.deframe at accepted
  split at accepted
  · cases accepted
  rename_i long
  dsimp only at accepted
  split at accepted
  · cases accepted
  rename_i authentic
  rw [minFrame, headerLen, tagLen] at long
  let tag := datagram.drop (datagram.length - tagLen)
  let header := xorInPlace (datagram.take headerLen) (headerMask sip codec.hpKey tag)
  let payload := (datagram.take (datagram.length - tagLen)).drop headerLen
  have tagged : authTag sip codec.authKey header payload = tag := not_not.mp authentic
  have takenLength : (datagram.take headerLen).length = headerLen := by
    rw [length_take, headerLen]
    omega
  have headerLength : header.length = headerLen := by
    simp only [header, xorInPlace, length_zipWith, takenLength, length_headerMask, min_self]
  have written := writeHeader_readHeader header payload headerLength
  obtain rfl := Except.ok.inj accepted
  have masked : xorInPlace header (headerMask sip codec.hpKey tag) = datagram.take headerLen :=
    xorInPlace_twice _ _ (by rw [takenLength, length_headerMask])
  have body : datagram.take headerLen ++ payload = datagram.take (datagram.length - tagLen) := by
    have cut : datagram.take headerLen =
        (datagram.take (datagram.length - tagLen)).take headerLen := by
      rw [take_take, min_eq_left (by rw [headerLen, tagLen]; omega)]
    rw [cut]
    exact take_append_drop _ _
  change xorInPlace (writeHeader _) (headerMask sip codec.hpKey
    (authTag sip codec.authKey (writeHeader _) payload)) ++ payload ++
      authTag sip codec.authKey (writeHeader _) payload = datagram
  rw [written, tagged, masked, body]
  exact take_append_drop _ _

/-- The wire format is a bijection between what is sent and what is accepted. A symbol with its
counter and its class arrives as it was sent, and every accepted datagram is the one that framing
makes of the frame it carries, so that no two datagrams carry the same frame. -/
theorem wire_roundtrip_and_canonical (sip : Sip) (codec : Codec) :
    (∀ (connTag counter : Nat) (symbol : Symbol) (flow : FlowClass),
      connTag < 2 ^ 64 → counter < 2 ^ 64 → symbol.objectId < 2 ^ 16 → symbol.objectSize < 2 ^ 32 →
        ∃ frame, codec.deframe sip (codec.frame sip (symbolToFrame connTag symbol counter flow)) =
            .ok frame ∧ frame = symbolToFrame connTag symbol counter flow ∧
          frameToSymbol frame = some (symbol, counter, flow)) ∧
      (∀ (datagram : List Byte) (frame : Frame),
        codec.deframe sip datagram = .ok frame → codec.frame sip frame = datagram) ∧
      ∀ (first second : List Byte) (frame : Frame), codec.deframe sip first = .ok frame →
        codec.deframe sip second = .ok frame → first = second := by
  refine ⟨?_, frame_of_deframe sip codec, ?_⟩
  · intro connTag counter symbol flow tagBound counterBound idBound sizeBound
    refine ⟨_, deframe_frame sip codec _, ?_, ?_⟩
    · simp only [Frame.truncated, symbolToFrame]
      rw [Nat.mod_eq_of_lt (by omega), Nat.mod_eq_of_lt (by omega)]
    · rw [frameToSymbol_symbolToFrame, Nat.mod_eq_of_lt (by omega), Nat.mod_eq_of_lt (by omega),
        Nat.mod_eq_of_lt (by omega)]
  · intro first second frame firstAccepted secondAccepted
    rw [← frame_of_deframe sip codec first frame firstAccepted,
      frame_of_deframe sip codec second frame secondAccepted]

theorem first_symbol_survives_wire :
    ∃ frame, (⟨[0], [1]⟩ : Codec).deframe (fun _ bytes => BitVec.ofNat 64 (ofBeBytes bytes))
        ((⟨[0], [1]⟩ : Codec).frame (fun _ bytes => BitVec.ofNat 64 (ofBeBytes bytes))
          (symbolToFrame 7 ⟨1, 3, packPayloadId 0 0, [1, 0, 1]⟩ 5 .bulk)) = .ok frame ∧
      frame = symbolToFrame 7 ⟨1, 3, packPayloadId 0 0, [1, 0, 1]⟩ 5 .bulk ∧
      frameToSymbol frame = some (⟨1, 3, packPayloadId 0 0, [1, 0, 1]⟩, 5, .bulk) :=
  (wire_roundtrip_and_canonical _ _).1 7 5 ⟨1, 3, packPayloadId 0 0, [1, 0, 1]⟩ .bulk
    (by decide) (by decide) (by decide) (by decide)

end Yip.Wire
