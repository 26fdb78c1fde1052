/-
This file models `fec.rs`: the encoder that splits a sealed frame into source symbols and adds
repair symbols, and the reassembler that collects symbols of several objects at once and returns
an object when enough of them arrived.
-/

import Mathlib.Data.List.AList
import Yip.Transport.Rs

namespace Yip.Transport

open ArrayList Rs

/-- The parameters of a class of traffic. -/
structure FlowParams where
  symbolSize : Nat
  deadlineMs : Nat
  arq : Bool
  deriving DecidableEq, Repr

inductive FlowClass where
  | realtime
  | bulk
  | default
  deriving DecidableEq, Repr

def FlowClass.params : FlowClass → FlowParams
  | realtime => ⟨1200, 20, false⟩
  | bulk => ⟨1200, 500, true⟩
  | default => ⟨1200, 100, false⟩

/-! ### Symbols -/

def maxObjectSize : Nat := 262144

def codecRsV1 : Byte := Byte.ofNat 0x01

structure PayloadId where
  codec : Byte
  indexHi : Byte
  indexLo : Byte
  scheme : Byte
  deriving DecidableEq, Repr

structure Symbol where
  objectId : Nat
  objectSize : Nat
  payloadId : PayloadId
  data : List Byte
  deriving DecidableEq, Repr

def packPayloadId (symbolIndex : Nat) (scheme : Byte) : PayloadId :=
  ⟨codecRsV1, Byte.ofNat (symbolIndex / 256), Byte.ofNat symbolIndex, scheme⟩

def parsePayloadId (payloadId : PayloadId) : Option (Nat × Scheme) :=
  if payloadId.codec ≠ codecRsV1 then none
  else
    (Scheme.fromU8 payloadId.scheme).map fun scheme =>
      (payloadId.indexHi.toNat * 256 + payloadId.indexLo.toNat, scheme)

def sourceCount (objectSize symbolSize : Nat) : Nat :=
  if symbolSize = 0 then 0 else (objectSize + symbolSize - 1) / symbolSize

def splitSource (ciphertext : List Byte) (k sym : Nat) : List (List Byte) :=
  (List.range k).map fun i =>
    let start := i * sym
    let stop := min (start + sym) ciphertext.length
    if start < ciphertext.length then
      copyInto (List.replicate sym 0) 0 (slice ciphertext start (stop - start))
    else List.replicate sym 0

/-! ### Encoder -/

/-- The sender's side: the next object and how far the ids are apart. -/
structure FecEncoder where
  nextObjectId : Nat
  stride : Nat
  symbolsEncoded : Nat
  deriving DecidableEq, Repr

namespace FecEncoder

def new : FecEncoder := ⟨0, 1, 0⟩

def setShard (encoder : FecEncoder) (shardId numShards : Nat) : FecEncoder :=
  { encoder with
    nextObjectId := shardId
    stride := if numShards = 0 then 1 else numShards }

def schemeFor (arq : Bool) (r : Nat) : Scheme :=
  if !arq && (r == 1 || r == 2) then .pq else .cauchy

def symbol (objectId objectSize index : Nat) (scheme : Scheme) (data : List Byte) : Symbol :=
  ⟨objectId, objectSize, packPayloadId index scheme.toU8, data⟩

def build (ciphertext : List Byte) (params : FlowParams) (objectId repair : Nat) : List Symbol :=
  let objectSize := ciphertext.length
  let sym := params.symbolSize
  if sym = 0 then []
  else
    let k := sourceCount objectSize sym
    if k = 0 ∨ k ≥ 255 then []
    else
      let r := min repair (255 - k)
      let scheme := schemeFor params.arq r
      if k = 1 then
        symbol objectId objectSize 0 scheme ciphertext ::
          (encodeRepair [ciphertext] r scheme).mapIdx fun m rep =>
            symbol objectId objectSize (1 + m) scheme rep
      else
        let source := splitSource ciphertext k sym
        let lastSourceLen := objectSize - (k - 1) * sym
        (source.mapIdx fun i shard =>
            symbol objectId objectSize i scheme
              (if i = k - 1 then shard.take lastSourceLen else shard)) ++
          (encodeRepair source r scheme).mapIdx fun m rep =>
            symbol objectId objectSize (k + m) scheme rep

def count (encoder : FecEncoder) (symbols : List Symbol) : FecEncoder :=
  { encoder with symbolsEncoded := min (encoder.symbolsEncoded + symbols.length) (2 ^ 64 - 1) }

def encode (encoder : FecEncoder) (ciphertext : List Byte) (params : FlowParams) (repair : Nat) :
    FecEncoder × List Symbol :=
  let symbols := build ciphertext params encoder.nextObjectId repair
  ({ encoder with
      nextObjectId := (encoder.nextObjectId + encoder.stride) % 65536 }.count symbols, symbols)

def repairWithId (encoder : FecEncoder) (ciphertext : List Byte) (params : FlowParams)
    (objectId extraRepair : Nat) : FecEncoder × List Symbol :=
  let symbols := build ciphertext params objectId extraRepair
  (encoder.count symbols, symbols)

end FecEncoder

/-! ### Reassembler -/

/-- An object on its way: the shards that arrived, in place. -/
structure ObjState where
  payload : List Byte
  seenMask : List (BitVec 64)
  sourceCount : Nat
  totalCount : Nat
  k : Nat
  shardLen : Nat
  objectSize : Nat
  scheme : Scheme
  done : Bool
  expiresAtMs : Nat
  repairShards : List (Nat × List Byte)

def isSeen (seenMask : List (BitVec 64)) (idx : Nat) : Bool :=
  if idx ≥ 256 then false else isSet seenMask idx

def markSeen (seenMask : List (BitVec 64)) (idx : Nat) : List (BitVec 64) :=
  if idx < 256 then
    seenMask.set (idx / 64) (seenMask.getD (idx / 64) 0 ||| 1#64 <<< (idx % 64))
  else seenMask

/-- The receiver's side: the objects on their way, in order of arrival. -/
structure FecReassembler where
  symbolSize : Nat
  objects : AList fun _ : Nat => ObjState
  order : List Nat
  maxObjects : Nat
  recoveredCount : Nat
  unrecoverableCount : Nat

namespace FecReassembler

def new (symbolSize maxObjects : Nat) : FecReassembler :=
  ⟨symbolSize, ∅, [], max maxObjects 1, 0, 0⟩

def setSymbolSize (re : FecReassembler) (s : Nat) : FecReassembler := { re with symbolSize := s }

structure Incoming where
  symbolIndex : Nat
  scheme : Scheme
  k : Nat
  symSize : Nat
  deriving DecidableEq, Repr

def expectedWireLen (k symSize objSize symbolIndex : Nat) : Option Nat :=
  if symbolIndex = k - 1 then
    if (k - 1) * symSize ≤ objSize then some (objSize - (k - 1) * symSize) else none
  else some (min objSize symSize)

def objectShape (re : FecReassembler) (objectKey objectSize : Nat) : Option (Nat × Nat) :=
  match re.objects.lookup objectKey with
  | some existing =>
    if existing.objectSize ≠ objectSize then none else some (existing.k, existing.shardLen)
  | none => some (Transport.sourceCount objectSize re.symbolSize, re.symbolSize)

/-- Whether a symbol fits its object, and where it belongs. -/
def accept (re : FecReassembler) (objectKey : Nat) (symbol : Symbol) : Option Incoming :=
  if symbol.objectSize = 0 ∨ symbol.objectSize > maxObjectSize ∨ re.symbolSize = 0 then none
  else
    (parsePayloadId symbol.payloadId).bind fun (symbolIndex, scheme) =>
      if symbolIndex ≥ 255 then none
      else
        (re.objectShape objectKey symbol.objectSize).bind fun (k, symSize) =>
          if k = 0 ∨ k ≥ 255 then none
          else
            (expectedWireLen k symSize symbol.objectSize symbolIndex).bind fun expected =>
              if symbol.data.length ≠ expected then none
              else if scheme = .pq ∧ symbolIndex ≥ k + 2 then none
              else some ⟨symbolIndex, scheme, k, symSize⟩

def bump (counter : Nat) : Nat := min (counter + 1) (2 ^ 64 - 1)

def sweepFrom (objectKey nowMs : Nat) (re : FecReassembler) : List Nat → FecReassembler
  | [] => { re with order := [] }
  | oldest :: rest =>
    if oldest = objectKey then { re with order := oldest :: rest }
    else
      match re.objects.lookup oldest with
      | some state =>
        if nowMs > state.expiresAtMs ∨ state.done = true then
          sweepFrom objectKey nowMs
            { re with
              objects := re.objects.erase oldest
              unrecoverableCount :=
                if state.done then re.unrecoverableCount else bump re.unrecoverableCount } rest
        else { re with order := oldest :: rest }
      | none => sweepFrom objectKey nowMs re rest

/-- Drops finished and expired objects from the front of the queue. -/
def sweep (re : FecReassembler) (objectKey nowMs : Nat) : FecReassembler :=
  sweepFrom objectKey nowMs re re.order

def evict (re : FecReassembler) : FecReassembler :=
  match re.order with
  | [] => re
  | oldest :: rest =>
    match re.objects.lookup oldest with
    | some state =>
      { re with
        order := rest
        objects := re.objects.erase oldest
        unrecoverableCount :=
          if state.done then re.unrecoverableCount else bump re.unrecoverableCount }
    | none => { re with order := rest }

def fresh (incoming : Incoming) (objectSize nowMs deadlineMs : Nat) : ObjState where
  payload := List.replicate (incoming.k * min objectSize incoming.symSize) 0
  seenMask := List.replicate 4 0
  sourceCount := 0
  totalCount := 0
  k := incoming.k
  shardLen := min objectSize incoming.symSize
  objectSize := objectSize
  scheme := incoming.scheme
  done := false
  expiresAtMs := min (nowMs + deadlineMs) (2 ^ 64 - 1)
  repairShards := []

def enter (re : FecReassembler) (objectKey : Nat) (incoming : Incoming)
    (objectSize nowMs deadlineMs : Nat) : FecReassembler :=
  match re.objects.lookup objectKey with
  | some _ => re
  | none =>
    let re := if re.objects.entries.length ≥ re.maxObjects then re.evict else re
    { re with
      objects := re.objects.insert objectKey (fresh incoming objectSize nowMs deadlineMs)
      order := re.order ++ [objectKey] }

end FecReassembler

namespace ObjState

def expire (state : ObjState) : ObjState :=
  { state with done := true, payload := [], repairShards := [] }

def store (state : ObjState) (symbolIndex : Nat) (data : List Byte) : ObjState :=
  let state :=
    { state with
      seenMask := markSeen state.seenMask symbolIndex
      totalCount := state.totalCount + 1 }
  if symbolIndex < state.k then
    { state with
      sourceCount := state.sourceCount + 1
      payload := copyInto state.payload (symbolIndex * state.shardLen)
        (data.take (min data.length state.shardLen)) }
  else
    { state with
      repairShards := state.repairShards ++
        [(symbolIndex, data ++ List.replicate (state.shardLen - data.length) 0)] }

def release (state : ObjState) : ObjState := { state with payload := [], repairShards := [] }

def complete (state : ObjState) : ObjState × Option (List Byte) × Bool :=
  let state := { state with done := true }
  if state.sourceCount = state.k then
    (state.release, some (state.payload.take state.objectSize), false)
  else
    match reconstructMissingSources state.k state.shardLen state.payload state.seenMask
        state.repairShards state.scheme with
    | none => (state, none, true)
    | some payload => (state.release, some (payload.take state.objectSize), true)

/-- Takes a shard in and completes the object when there are enough. -/
def ingest (state : ObjState) (symbolIndex : Nat) (scheme : Scheme) (data : List Byte)
    (nowMs : Nat) : ObjState × Option (List Byte) × Bool :=
  if nowMs > state.expiresAtMs then (state.expire, none, false)
  else if state.done then (state, none, false)
  else if state.scheme ≠ scheme then (state, none, false)
  else if isSeen state.seenMask symbolIndex then (state, none, false)
  else
    let state := state.store symbolIndex data
    if state.totalCount < state.k then (state, none, false) else state.complete

end ObjState

/-- A symbol arrives; the object, if this completes it. -/
def FecReassembler.push (re : FecReassembler) (objectKey : Nat) (symbol : Symbol)
    (nowMs deadlineMs : Nat) : FecReassembler × Option (List Byte) :=
  match re.accept objectKey symbol with
  | none => (re, none)
  | some incoming =>
    let re := (re.sweep objectKey nowMs).enter objectKey incoming symbol.objectSize nowMs deadlineMs
    match re.objects.lookup objectKey with
    | none => (re, none)
    | some state =>
      let (state, object, recovered) :=
        state.ingest incoming.symbolIndex incoming.scheme symbol.data nowMs
      ({ re with
          objects := re.objects.insert objectKey state
          recoveredCount := if recovered then re.recoveredCount + 1 else re.recoveredCount },
        object)

end Yip.Transport
