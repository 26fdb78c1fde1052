/-
This file models the control messages of the transport and the controller of the path MTU: the
loss report (`feedback.rs`), the three kinds of control frame and the search ladder of
packetization-layer path MTU discovery (`plpmtu.rs`).
-/

import Yip.Transport.Fec

namespace Yip.Transport

/-! ### Loss reports -/

def maxNack : Nat := 64

/-- What the receiver tells of a class: how many arrived, how far, and which are missing. -/
structure LossReport where
  deliveredCount : Nat
  highCounter : Nat
  missing : List Nat
  deriving DecidableEq, Repr

namespace LossReport

def encode (report : LossReport) : List Byte :=
  let nMissing := min report.missing.length maxNack
  toBeBytes 4 report.deliveredCount ++ toBeBytes 8 report.highCounter ++ toBeBytes 2 nMissing ++
    (report.missing.take nMissing).flatMap (toBeBytes 8)

def decode (bytes : List Byte) : Option LossReport :=
  if bytes.length < 14 then none
  else
    let nMissing := ofBeBytes ((bytes.drop 12).take 2)
    if bytes.length ≠ 14 + nMissing * 8 then none
    else
      let missing := (List.range nMissing).map fun i => ofBeBytes ((bytes.drop (14 + i * 8)).take 8)
      some ⟨ofBeBytes (bytes.take 4), ofBeBytes ((bytes.drop 4).take 8), missing.take maxNack⟩

end LossReport

/-! ### Control frames -/

def magicMtuProbe : List Byte := [Byte.ofNat 0xFF, Byte.ofNat 0x50]

def magicMtuProbeAck : List Byte := [Byte.ofNat 0xFF, Byte.ofNat 0x41]

/-- What travels inside a session beside the packets of the device. -/
inductive ControlFrame where
  | feedback (report : LossReport)
  | mtuProbe (probeId targetSymbolSize : Nat) (padding : List Byte)
  | mtuProbeAck (probeId acceptedSymbolSize : Nat)
  deriving DecidableEq, Repr

namespace ControlFrame

def encode : ControlFrame → List Byte
  | feedback report => report.encode
  | mtuProbe probeId targetSymbolSize padding =>
    magicMtuProbe ++ toBeBytes 2 probeId ++ toBeBytes 2 targetSymbolSize ++ padding
  | mtuProbeAck probeId acceptedSymbolSize =>
    magicMtuProbeAck ++ toBeBytes 2 probeId ++ toBeBytes 2 acceptedSymbolSize

def decode (bytes : List Byte) : Option ControlFrame :=
  let field := fun start => ofBeBytes ((bytes.drop start).take 2)
  if bytes.length ≥ 6 ∧ bytes.take 2 = magicMtuProbe then
    if bytes.length ≠ field 4 then none else some (mtuProbe (field 2) (field 4) (bytes.drop 6))
  else if bytes.length = 6 ∧ bytes.take 2 = magicMtuProbeAck then
    some (mtuProbeAck (field 2) (field 4))
  else (LossReport.decode bytes).map feedback

end ControlFrame

/-! ### The search ladder -/

def plpmtuLadder : List Nat := [1120, 1320, 1400, 1530]

def plpmtuFloor : Nat := plpmtuLadder.getD 0 0

def probeIntervalMs : Nat := 1000

def maxProbeAttempts : Nat := 3

inductive ControllerState where
  | probing (tierIdx attempts : Nat)
  | converged
  deriving DecidableEq, Repr

/-- The search for the largest symbol size that the path carries. -/
structure PlpmtuController where
  confirmedSymbolSize : Nat
  state : ControllerState
  nextProbeId : Nat
  activeProbeId : Nat
  lastProbeMs : Option Nat
  backoffExp : Nat
  deriving DecidableEq, Repr

namespace PlpmtuController

def new : PlpmtuController := ⟨plpmtuFloor, .probing 1 0, 2, 1, some 0, 0⟩

def currentSymbolSize (controller : PlpmtuController) : Nat := controller.confirmedSymbolSize

def probeInterval (controller : PlpmtuController) : Nat :=
  probeIntervalMs * 2 ^ min controller.backoffExp 5

def restart (controller : PlpmtuController) (tierIdx : Nat) : PlpmtuController :=
  { controller with
    state := .probing tierIdx 0
    activeProbeId := controller.nextProbeId
    nextProbeId := (controller.nextProbeId + 1) % 65536 }

/-- Sends the probe that is due, or ends the search after three. -/
def onTick (controller : PlpmtuController) (nowMs : Nat) :
    PlpmtuController × Option (Nat × Nat × Nat) :=
  match controller.state with
  | .converged => (controller, none)
  | .probing tierIdx attempts =>
    if nowMs - controller.lastProbeMs.getD 0 < controller.probeInterval then (controller, none)
    else if attempts + 1 > maxProbeAttempts then
      ({ controller with state := .converged }, none)
    else
      let targetSymbolSize := plpmtuLadder.getD tierIdx 0
      ({ controller with lastProbeMs := some nowMs, state := .probing tierIdx (attempts + 1) },
        some (controller.activeProbeId, targetSymbolSize, targetSymbolSize - 6))

/-- The size of an acknowledged probe is used, and the next tier tried. -/
def onAck (controller : PlpmtuController) (probeId acceptedSymbolSize : Nat) :
    PlpmtuController × Option Nat :=
  match controller.state with
  | .converged => (controller, none)
  | .probing tierIdx _ =>
    if probeId = controller.activeProbeId ∧ acceptedSymbolSize = plpmtuLadder.getD tierIdx 0 then
      let controller :=
        { controller with confirmedSymbolSize := acceptedSymbolSize, backoffExp := 0 }
      let nextTier := tierIdx + 1
      (if nextTier < plpmtuLadder.length then controller.restart nextTier
        else { controller with state := .converged }, some acceptedSymbolSize)
    else (controller, none)

/-- Falls back to the floor when larger packets are lost. -/
def onBlackhole (controller : PlpmtuController) : PlpmtuController × Option Nat :=
  if controller.confirmedSymbolSize > plpmtuFloor then
    ({ controller with
        confirmedSymbolSize := plpmtuFloor
        backoffExp := min (controller.backoffExp + 1) (2 ^ 32 - 1) }.restart 1, some plpmtuFloor)
  else (controller, none)

def resetToFloor (controller : PlpmtuController) : PlpmtuController × Nat :=
  ({ controller with confirmedSymbolSize := plpmtuFloor, backoffExp := 0 }.restart 1, plpmtuFloor)

end PlpmtuController

end Yip.Transport
