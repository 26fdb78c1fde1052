/-
This file is about the two places that keep the symbol size of a session: the transport and the
path MTU controller.
-/

import Yip.Emission
import Yip.Transparent

namespace Yip

open Crypto Transport Wire

namespace DataPlane

variable {env : Primitives}

structure InStep (dp : DataPlane env) : Prop where
  size : dp.transport.symbolSize = dp.plpmtu.currentSymbolSize
  climbing : dp.plpmtu.Climbing

/-- The report tells of a loss that sends the search back. -/
def Blackhole (dp : DataPlane env) (report : LossReport) : Prop :=
  (severeLoss (dp.missingOf report .default) (dp.sentOf report .default) ||
    severeLoss (dp.missingOf report .bulk) (dp.sentOf report .bulk)) = true

instance (dp : DataPlane env) (report : LossReport) : Decidable (dp.Blackhole report) :=
  inferInstanceAs (Decidable (_ = true))

section

variable {dp : DataPlane env} (inStep : dp.InStep)

include inStep

/-- An operation that moves one of the two sizes moves the other one with it. -/
theorem InStep.acts {after : DataPlane env} {addr : SocketAddr} {heard opened : Option Nat}
    {sealing : Bool} {out : List EgressDatagram}
    (acts : dp.Acts after addr heard opened sealing out) : after.InStep := by
  refine ⟨?_, acts.climbing inStep.climbing⟩
  cases acts.reshaped with
  | keeps _ symbolSize same => exact symbolSize.trans (inStep.size.trans same.symm)
  | resizes _ symbolSize => exact symbolSize
  | hears _ _ _ _ _ _ symbolSize same => exact symbolSize.trans (inStep.size.trans same.symm)

theorem InStep.step (event : Event) : (dp.step event).InStep := by
  obtain ⟨_, _, _, acts⟩ := dp.step_acts event
  exact inStep.acts acts

theorem InStep.blackhole_floor {report : LossReport} (severe : dp.Blackhole report) :
    (dp.observeReport report).transport.symbolSize = plpmtuFloor := by
  have rungs : ∀ size ∈ plpmtuLadder, ¬ size > plpmtuFloor → size = plpmtuFloor := by decide
  rw [observeReport_symbolSize, sizeAfterReport]
  by_cases above : dp.plpmtu.confirmedSymbolSize > plpmtuFloor
  · rw [if_pos ⟨severe, above⟩]
  · rw [if_neg fun both => above both.2]
    exact inStep.size.trans (rungs _ inStep.climbing.rung above)

end

/-! ### The transport and the controller agree -/

/-- In every run of a data plane the transport sends at the controller's size, and a black hole
brings the size that is sent down to the floor, exactly when the data plane was built with the size
at which the controller starts. -/
theorem size_follows_controller_iff (established : Established) (connTag : Nat) (l2 : Bool)
    (peerAddr : SocketAddr) (obfOn : Bool) (symbolSize : Nat) :
    (∀ events : List Event,
      let dp := Machine.run step (new env established connTag l2 peerAddr obfOn symbolSize) events
      dp.transport.symbolSize = dp.plpmtu.currentSymbolSize ∧
        ∀ report, dp.Blackhole report →
          (dp.observeReport report).transport.symbolSize = plpmtuFloor) ↔
      symbolSize = plpmtuFloor := by
  constructor
  · intro agree
    exact (agree []).1
  · rintro rfl events
    have start : (new env established connTag l2 peerAddr obfOn plpmtuFloor).InStep :=
      ⟨rfl, PlpmtuController.climbing_new⟩
    have inStep := Machine.run_invariant step (fun _ _ => True) InStep
      (fun _ event holds _ => holds.step event) _ events start
      (Machine.admissible_of_forall step (fun _ => True) _ _ fun _ _ => trivial)
    exact ⟨inStep.size, fun _ severe => inStep.blackhole_floor severe⟩

/-- A data plane built with the default size of 1200 sends four packets and is told that all of
them are missing. That is a black hole, but the controller is still at its floor, so that the size
sent stays at 1200. -/
theorem default_size_outlives_blackhole :
    let dp := Machine.run step (Transparent.dataPlane .bulk true 1 1200)
      [.tun [1] 0, .tun [2] 0, .tun [3] 0, .tun [4] 0]
    let report : LossReport := ⟨0, 3, [0, 1, 2, 3]⟩
    let feedback :=
      ((Transparent.dataPlane .bulk false 1 1200).sealControl (.feedback report)).2.elim []
        (·.bytes)
    dp.Blackhole report ∧ dp.plpmtu.currentSymbolSize = 1120 ∧
      (dp.step (.udp feedback 40)).lastLossReportHigh = 3 ∧
      (dp.step (.udp feedback 40)).transport.symbolSize = 1200 := by
  decide +kernel

end DataPlane

end Yip
