/-
This file models the two ends of loss recovery: the receiver's detector of missing counters
(`lossdetect.rs`) and the sender's buffer of sealed frames that can still be resent
(`retxbuf.rs`).
-/

import Yip.Transport.Control

namespace Yip.Transport

/-! ### Loss detector -/

/-- The counters that are missing, and since when. -/
structure LossDetector where
  graceMs : Nat
  window : Nat
  highCounter : Nat
  seenAny : Bool
  pending : List (Nat × Nat)
  delivered : Nat
  resolvedBelow : Nat
  resolvedSet : List Nat
  deriving DecidableEq, Repr

def orInsert (counter value : Nat) : List (Nat × Nat) → List (Nat × Nat)
  | [] => [(counter, value)]
  | (other, old) :: rest =>
    if counter < other then (counter, value) :: (other, old) :: rest
    else if counter = other then (other, old) :: rest
    else (other, old) :: orInsert counter value rest

def insertSorted (counter : Nat) : List Nat → List Nat
  | [] => [counter]
  | other :: rest =>
    if counter < other then counter :: other :: rest
    else if counter = other then other :: rest
    else other :: insertSorted counter rest

def advanceOver : Nat → Nat → List Nat → Nat × List Nat
  | 0, watermark, entries => (watermark, entries)
  | rounds + 1, watermark, entries =>
    if entries.contains watermark then
      advanceOver rounds (min (watermark + 1) (2 ^ 64 - 1)) (entries.erase watermark)
    else (watermark, entries)

def keepLargest {α : Type} (bound : Nat) (entries : List α) : List α :=
  entries.drop (entries.length - bound)

namespace LossDetector

def new (graceMs window : Nat) : LossDetector := ⟨graceMs, window, 0, false, [], 0, 0, []⟩

def isResolved (detector : LossDetector) (counter : Nat) : Bool :=
  counter < detector.resolvedBelow || detector.resolvedSet.contains counter

/-- A counter is settled; a watermark passes those below. -/
def markResolved (detector : LossDetector) (counter : Nat) : LossDetector :=
  if counter < detector.resolvedBelow then detector
  else
    let entered := insertSorted counter detector.resolvedSet
    let (resolvedBelow, resolvedSet) := advanceOver entered.length detector.resolvedBelow entered
    { detector with
      resolvedBelow := resolvedBelow
      resolvedSet := keepLargest detector.window resolvedSet }

def enforceWindow (detector : LossDetector) : LossDetector :=
  { detector with pending := keepLargest detector.window detector.pending }

def onSeen (detector : LossDetector) (counter nowMs : Nat) : LossDetector :=
  if detector.isResolved counter then detector
  else if !detector.seenAny then
    { detector with
      highCounter := counter
      seenAny := true
      pending := orInsert counter nowMs detector.pending }.enforceWindow
  else
    let detector :=
      if counter > detector.highCounter then
        let gapStart := detector.highCounter + 1
        { detector with
          pending := (List.range' gapStart (counter - gapStart)).foldl
            (fun pending c =>
              if detector.isResolved c then pending else orInsert c nowMs pending)
            detector.pending
          highCounter := counter }
      else detector
    { detector with pending := orInsert counter nowMs detector.pending }.enforceWindow

def onDelivered (detector : LossDetector) (counter : Nat) : LossDetector :=
  let detector :=
    { detector with pending := detector.pending.filter (·.1 ≠ counter) }.markResolved counter
  { detector with delivered := min (detector.delivered + 1) (2 ^ 32 - 1) }

/-- What is missing for longer than the grace is reported once and settled. -/
def report (detector : LossDetector) (nowMs : Nat) : LossDetector × LossReport :=
  let promoted := (detector.pending.filter fun entry =>
    detector.graceMs ≤ nowMs - entry.2).map Prod.fst
  let resolved := promoted.foldl (fun detector c =>
    { detector with pending := detector.pending.filter (·.1 ≠ c) }.markResolved c) detector
  ({ resolved with delivered := 0 },
    ⟨resolved.delivered, if resolved.seenAny then resolved.highCounter else 0,
      promoted.take maxNack⟩)

end LossDetector

/-! ### Retransmit buffer -/

structure RetxEntry where
  ciphertext : List Byte
  flow : FlowClass
  objectId : Nat
  insertedMs : Nat
  deriving DecidableEq, Repr

structure RetxBuffer where
  map : AList fun _ : Nat => RetxEntry
  order : List Nat
  max : Nat
  ttlMs : Nat

namespace RetxBuffer

def new (max ttlMs : Nat) : RetxBuffer := ⟨∅, [], Nat.max max 1, ttlMs⟩

def evictExpiredFrom (nowMs : Nat) (buffer : RetxBuffer) : List Nat → RetxBuffer
  | [] => { buffer with order := [] }
  | front :: rest =>
    match buffer.map.lookup front with
    | none => evictExpiredFrom nowMs buffer rest
    | some entry =>
      if nowMs - entry.insertedMs > buffer.ttlMs then
        evictExpiredFrom nowMs { buffer with map := buffer.map.erase front } rest
      else { buffer with order := front :: rest }

def evictExpired (buffer : RetxBuffer) (nowMs : Nat) : RetxBuffer :=
  evictExpiredFrom nowMs buffer buffer.order

def evictOldest (buffer : RetxBuffer) : RetxBuffer :=
  match buffer.order with
  | [] => buffer
  | oldest :: rest => { buffer with order := rest, map := buffer.map.erase oldest }

def put (buffer : RetxBuffer) (counter : Nat) (ciphertext : List Byte) (flow : FlowClass)
    (objectId nowMs : Nat) : RetxBuffer :=
  let entry : RetxEntry := ⟨ciphertext, flow, objectId, nowMs⟩
  match buffer.map.lookup counter with
  | some _ => { buffer with map := buffer.map.replace counter entry }
  | none =>
    let buffer := buffer.evictExpired nowMs
    let buffer := if buffer.map.entries.length ≥ buffer.max then buffer.evictOldest else buffer
    { buffer with map := buffer.map.insert counter entry, order := buffer.order ++ [counter] }

def get (buffer : RetxBuffer) (counter nowMs : Nat) : Option (List Byte × FlowClass × Nat) :=
  (buffer.map.lookup counter).bind fun entry =>
    if nowMs - entry.insertedMs > buffer.ttlMs then none
    else some (entry.ciphertext, entry.flow, entry.objectId)

end RetxBuffer

end Yip.Transport
