/-
This file is the safety of path MTU discovery.
-/

import Yip.Lib.Machine
import Yip.Transport.Control

namespace Yip.Transport

open List

namespace PlpmtuController

/-! ### What a controller does -/

variable (controller : PlpmtuController)

theorem onTick_spec (nowMs : Nat) :
    (controller.onTick nowMs).1.nextProbeId = controller.nextProbeId ∧
      (controller.onTick nowMs).1.activeProbeId = controller.activeProbeId ∧
      (controller.onTick nowMs).1.confirmedSymbolSize = controller.confirmedSymbolSize ∧
      ∀ probe ∈ (controller.onTick nowMs).2, probe.1 = controller.activeProbeId := by
  unfold onTick
  split
  · exact ⟨rfl, rfl, rfl, by simp⟩
  · split
    · exact ⟨rfl, rfl, rfl, by simp⟩
    · split
      · exact ⟨rfl, rfl, rfl, by simp⟩
      · refine ⟨rfl, rfl, rfl, ?_⟩
        rintro probe ⟨⟩
        rfl

theorem onAck_cases (probeId size : Nat) :
    controller.onAck probeId size = (controller, none) ∨
      ∃ tierIdx attempts, controller.state = .probing tierIdx attempts ∧
        probeId = controller.activeProbeId ∧ size = plpmtuLadder.getD tierIdx 0 ∧
        controller.onAck probeId size =
          let confirmed := { controller with confirmedSymbolSize := size, backoffExp := 0 }
          (if tierIdx + 1 < plpmtuLadder.length then confirmed.restart (tierIdx + 1)
            else { confirmed with state := .converged }, some size) := by
  unfold onAck
  split
  · exact Or.inl rfl
  · rename_i tierIdx attempts probing
    by_cases matching : probeId = controller.activeProbeId ∧ size = plpmtuLadder.getD tierIdx 0
    · refine Or.inr ⟨tierIdx, attempts, probing, matching.1, matching.2, ?_⟩
      rw [if_pos matching]
    · rw [if_neg matching]
      exact Or.inl rfl

/-- The size in use is the rung below the one that is tried. -/
structure Climbing (controller : PlpmtuController) : Prop where
  rung : controller.confirmedSymbolSize ∈ plpmtuLadder
  above : ∀ tierIdx attempts, controller.state = .probing tierIdx attempts →
    tierIdx < plpmtuLadder.length ∧ 0 < tierIdx ∧
      plpmtuLadder[tierIdx - 1]? = some controller.confirmedSymbolSize

theorem climbing_floor (base : PlpmtuController) (floor : base.confirmedSymbolSize = plpmtuFloor) :
    Climbing (base.restart 1) where
  rung := by
    change base.confirmedSymbolSize ∈ plpmtuLadder
    rw [floor]
    decide
  above := by
    rintro tierIdx attempts ⟨⟩
    refine ⟨by decide, by decide, ?_⟩
    change _ = some base.confirmedSymbolSize
    rw [floor]
    rfl

theorem climbing_new : Climbing new :=
  climbing_floor ⟨plpmtuFloor, .converged, 1, 1, some 0, 0⟩ rfl

namespace Climbing

variable {controller : PlpmtuController}

theorem onTick (climbing : Climbing controller) (nowMs : Nat) :
    Climbing (controller.onTick nowMs).1 := by
  refine ⟨(onTick_spec controller nowMs).2.2.1 ▸ climbing.rung, ?_⟩
  rw [(onTick_spec controller nowMs).2.2.1]
  unfold PlpmtuController.onTick
  split
  · exact climbing.above
  · rename_i tierIdx attempts probing
    split
    · exact climbing.above
    · split
      · rintro tier tries ⟨⟩
      · rintro tier tries ⟨⟩
        exact climbing.above tierIdx attempts probing

theorem tier (climbing : Climbing controller) {tierIdx attempts size : Nat}
    (probing : controller.state = .probing tierIdx attempts)
    (target : size = plpmtuLadder.getD tierIdx 0) : plpmtuLadder[tierIdx]? = some size := by
  rw [target, getD_eq_getElem?_getD,
    getElem?_eq_getElem (climbing.above tierIdx attempts probing).1]
  rfl

theorem onAck (climbing : Climbing controller) (probeId size : Nat) :
    Climbing (controller.onAck probeId size).1 := by
  rcases onAck_cases controller probeId size with
    ignored | ⟨tierIdx, attempts, probing, -, target, confirmed⟩
  · rw [ignored]
    exact climbing
  · have tier := climbing.tier probing target
    rw [confirmed]
    split
    · rename_i higher
      refine ⟨mem_of_getElem? tier, ?_⟩
      rintro next tries ⟨⟩
      exact ⟨higher, Nat.succ_pos _, tier⟩
    · exact ⟨mem_of_getElem? tier, by simp⟩

theorem onBlackhole (climbing : Climbing controller) : Climbing controller.onBlackhole.1 := by
  unfold PlpmtuController.onBlackhole
  split
  · exact climbing_floor _ rfl
  · exact climbing

theorem resetToFloor (controller : PlpmtuController) : Climbing controller.resetToFloor.1 :=
  climbing_floor _ rfl

end Climbing

end PlpmtuController

/-! ### The history of a run -/

/-- A controller, the probes it sent and those that were acknowledged. -/
structure Search where
  controller : PlpmtuController
  sent : List (Nat × Nat)
  fallback : Nat
  acked : List Nat
  taken : Nat
  deriving DecidableEq, Repr

namespace Search

def new : Search := ⟨PlpmtuController.new, [], 0, [], 1⟩

inductive Event where
  | tick (nowMs : Nat)
  | ack (sending : Nat)
  | blackhole
  | reset
  deriving DecidableEq, Repr

def follow (search : Search) (controller : PlpmtuController) : Search :=
  { search with
    controller := controller
    taken := if controller.nextProbeId = search.controller.nextProbeId then search.taken
      else search.taken + 1 }

def step (search : Search) : Event → Search
  | .tick nowMs =>
    let (controller, probe) := search.controller.onTick nowMs
    { search.follow controller with
      sent := search.sent ++ probe.toList.map fun (probeId, size, _) => (probeId, size) }
  | .ack sending =>
    match search.sent[sending]? with
    | none => search
    | some (probeId, size) =>
      { search.follow (search.controller.onAck probeId size).1 with
        acked := search.acked ++ [sending] }
  | .blackhole =>
    let (controller, fallen) := search.controller.onBlackhole
    { search.follow controller with
      fallback := if fallen.isSome then search.sent.length else search.fallback }
  | .reset =>
    { search.follow search.controller.resetToFloor.1 with fallback := search.sent.length }

/-! ### Probe ids -/

structure Numbered (search : Search) : Prop where
  active : search.controller.activeProbeId = search.taken
  next : search.controller.nextProbeId = (search.taken + 1) % 65536
  used : ∀ probe ∈ search.sent, probe.1 ≤ search.taken
  past : search.fallback ≤ search.sent.length
  recent : ∀ (sending size : Nat), search.sent[sending]? = some (search.taken, size) →
    search.fallback ≤ sending

theorem taken_le_follow (search : Search) (controller : PlpmtuController) :
    search.taken ≤ (search.follow controller).taken := by
  unfold follow
  split
  · exact Nat.le_refl _
  · exact Nat.le_succ _

theorem taken_le_step (search : Search) (event : Event) :
    search.taken ≤ (search.step event).taken := by
  cases event with
  | tick nowMs => exact taken_le_follow search _
  | ack sending =>
    rw [step]
    split
    · exact Nat.le_refl _
    · exact taken_le_follow search _
  | blackhole => exact taken_le_follow search _
  | reset => exact taken_le_follow search _

theorem taken_le_run (search : Search) (events : List Event) :
    search.taken ≤ (Machine.run step search events).taken := by
  induction events generalizing search with
  | nil => exact Nat.le_refl _
  | cons event rest ih =>
    exact (taken_le_step search event).trans (ih (search.step event))

theorem follow_of_same (search : Search) {controller : PlpmtuController}
    (same : controller.nextProbeId = search.controller.nextProbeId) :
    search.follow controller = { search with controller := controller } := by
  rw [follow, if_pos same]

variable {search : Search}

theorem follow_restart (numbered : search.Numbered) (base : PlpmtuController)
    (same : base.nextProbeId = search.controller.nextProbeId) (tierIdx : Nat) :
    search.follow (base.restart tierIdx) =
      { search with controller := base.restart tierIdx, taken := search.taken + 1 } := by
  have small : search.controller.nextProbeId < 65536 := by
    rw [numbered.next]
    exact Nat.mod_lt _ (by decide)
  have moved : (base.restart tierIdx).nextProbeId ≠ search.controller.nextProbeId := by
    change (base.nextProbeId + 1) % 65536 ≠ _
    omega
  rw [follow, if_neg moved]

theorem Numbered.restart (numbered : search.Numbered) (base : PlpmtuController)
    (same : base.nextProbeId = search.controller.nextProbeId) (tierIdx fallback : Nat)
    (acked : List Nat) (room : search.taken + 1 < 65536) (past : fallback ≤ search.sent.length) :
    Numbered ⟨base.restart tierIdx, search.sent, fallback, acked, search.taken + 1⟩ where
  active := by
    change base.nextProbeId = search.taken + 1
    rw [same, numbered.next, Nat.mod_eq_of_lt room]
  next := by
    change (base.nextProbeId + 1) % 65536 = _
    rw [same, numbered.next, Nat.mod_add_mod]
  used := fun probe member => (numbered.used probe member).trans (Nat.le_succ _)
  past := past
  recent := by
    intro sending size found
    exact absurd (numbered.used _ (mem_of_getElem? found)) (Nat.not_succ_le_self _)

/-! ### Soundness of the history -/

/-- A size above the floor was acknowledged since the last fallback. -/
def Evidenced (search : Search) : Prop :=
  plpmtuFloor < search.controller.confirmedSymbolSize →
    ∃ sending ∈ search.acked, search.fallback ≤ sending ∧
      ∃ probeId, search.sent[sending]? = some (probeId, search.controller.confirmedSymbolSize)

structure Sound (search : Search) : Prop where
  numbered : search.Numbered
  climbing : search.controller.Climbing
  evidenced : search.Evidenced

theorem sound_new : new.Sound where
  numbered := ⟨rfl, rfl, by simp [new], Nat.le_refl _, by simp [new]⟩
  climbing := PlpmtuController.climbing_new
  evidenced := fun above => absurd above (Nat.lt_irrefl _)

/-! ### Steps -/

theorem Sound.fallback (sound : search.Sound) {base : PlpmtuController}
    (same : base.nextProbeId = search.controller.nextProbeId)
    (floor : base.confirmedSymbolSize = plpmtuFloor) (room : search.taken + 1 < 65536) :
    Sound ⟨base.restart 1, search.sent, search.sent.length, search.acked, search.taken + 1⟩ where
  numbered := sound.numbered.restart base same 1 _ _ room (Nat.le_refl _)
  climbing := PlpmtuController.climbing_floor base floor
  evidenced := fun above => absurd (floor ▸ above) (Nat.lt_irrefl _)

theorem Sound.tick (sound : search.Sound) (nowMs : Nat) : (search.step (.tick nowMs)).Sound := by
  obtain ⟨sameNext, sameActive, sameSize, active⟩ := search.controller.onTick_spec nowMs
  simp only [step, follow_of_same search sameNext]
  refine ⟨⟨sameActive.trans sound.numbered.active, sameNext.trans sound.numbered.next,
    ?_, ?_, ?_⟩, sound.climbing.onTick nowMs, ?_⟩
  · refine forall_mem_append.mpr ⟨sound.numbered.used, forall_mem_map.mpr fun sent due => ?_⟩
    exact ((active sent (Option.mem_toList.mp due)).trans sound.numbered.active).le
  · exact sound.numbered.past.trans (by simp)
  · intro sending size found
    by_cases inside : sending < search.sent.length
    · rw [getElem?_append_left inside] at found
      exact sound.numbered.recent sending size found
    · exact sound.numbered.past.trans (Nat.le_of_not_lt inside)
  · intro above
    obtain ⟨sending, acked, recent, probeId, found⟩ := sound.evidenced (sameSize ▸ above)
    refine ⟨sending, acked, recent, probeId, ?_⟩
    rw [getElem?_append_left (List.getElem?_eq_some_iff.mp found).1]
    exact sameSize.symm ▸ found

theorem Sound.ack (sound : search.Sound) (sending : Nat)
    (room : (search.step (.ack sending)).taken < 65536) : (search.step (.ack sending)).Sound := by
  rw [step] at room ⊢
  cases found : search.sent[sending]? with
  | none => exact sound
  | some probe =>
    obtain ⟨probeId, size⟩ := probe
    simp only [found] at room
    dsimp only
    have climbing := sound.climbing.onAck probeId size
    rcases search.controller.onAck_cases probeId size with
      ignored | ⟨tierIdx, attempts, probing, active, target, confirmed⟩
    · rw [ignored, follow_of_same search rfl]
      refine ⟨⟨sound.numbered.active, sound.numbered.next, sound.numbered.used,
        sound.numbered.past, sound.numbered.recent⟩, sound.climbing, ?_⟩
      intro above
      obtain ⟨earlier, acked, evidence⟩ := sound.evidenced above
      exact ⟨earlier, mem_append_left _ acked, evidence⟩
    · have recent : search.fallback ≤ sending := by
        refine sound.numbered.recent sending size ?_
        rw [found, active, sound.numbered.active]
      let base := { search.controller with confirmedSymbolSize := size, backoffExp := 0 }
      rw [confirmed] at room climbing ⊢
      by_cases higher : tierIdx + 1 < plpmtuLadder.length
      · simp only [if_pos higher] at room climbing ⊢
        rw [follow_restart sound.numbered base rfl] at room ⊢
        exact ⟨sound.numbered.restart base rfl _ _ _ room sound.numbered.past, climbing,
          fun _ => ⟨sending, by simp, recent, probeId, found⟩⟩
      · simp only [if_neg higher] at climbing ⊢
        have same : search.follow { base with state := .converged } = _ :=
          follow_of_same search rfl
        rw [same]
        exact ⟨⟨sound.numbered.active, sound.numbered.next, sound.numbered.used,
          sound.numbered.past, sound.numbered.recent⟩, climbing,
          fun _ => ⟨sending, by simp, recent, probeId, found⟩⟩

theorem Sound.blackhole (sound : search.Sound) (room : (search.step .blackhole).taken < 65536) :
    (search.step .blackhole).Sound := by
  simp only [step, PlpmtuController.onBlackhole] at room ⊢
  by_cases above : search.controller.confirmedSymbolSize > plpmtuFloor
  · simp only [if_pos above] at room ⊢
    rw [follow_restart sound.numbered
      { search.controller with
        confirmedSymbolSize := plpmtuFloor
        backoffExp := min (search.controller.backoffExp + 1) (2 ^ 32 - 1) } rfl] at room ⊢
    exact sound.fallback rfl rfl room
  · simp only [if_neg above]
    rw [follow_of_same search rfl]
    exact sound

theorem Sound.reset (sound : search.Sound) (room : (search.step .reset).taken < 65536) :
    (search.step .reset).Sound := by
  simp only [step, PlpmtuController.resetToFloor] at room ⊢
  rw [follow_restart sound.numbered
    { search.controller with confirmedSymbolSize := plpmtuFloor, backoffExp := 0 } rfl] at room ⊢
  exact sound.fallback rfl rfl room

theorem Sound.step {search : Search} (sound : search.Sound) (event : Event)
    (room : (search.step event).taken < 65536) : (search.step event).Sound := by
  cases event with
  | tick nowMs => exact sound.tick nowMs
  | ack sending => exact sound.ack sending room
  | blackhole => exact sound.blackhole room
  | reset => exact sound.reset room

theorem sound_run (sound : search.Sound) (events : List Event)
    (room : (Machine.run Search.step search events).taken < 65536) :
    (Machine.run Search.step search events).Sound := by
  induction events generalizing search with
  | nil => exact sound
  | cons event rest ih =>
    have early : (search.step event).taken < 65536 :=
      (taken_le_run (search.step event) rest).trans_lt room
    exact ih (sound.step event early) room

/-- In every run that takes fewer than 65536 probe ids, the confirmed size is on the ladder; above
the floor it is the size of an acknowledged probe that was sent since the last reset or fallback;
and the tier under test is the one above the confirmed one. -/
theorem confirmed_size_safe (events : List Event)
    (room : (Machine.run step new events).taken < 65536) :
    let search := Machine.run step new events
    search.controller.currentSymbolSize ∈ plpmtuLadder ∧
      (plpmtuFloor < search.controller.currentSymbolSize →
        ∃ sending ∈ search.acked, search.fallback ≤ sending ∧
          ∃ probeId,
            search.sent[sending]? = some (probeId, search.controller.currentSymbolSize)) ∧
      ∀ tierIdx attempts, search.controller.state = .probing tierIdx attempts →
        tierIdx < plpmtuLadder.length ∧ 0 < tierIdx ∧
          plpmtuLadder[tierIdx - 1]? = some search.controller.currentSymbolSize := by
  intro search
  have sound : search.Sound := sound_run sound_new events room
  exact ⟨sound.climbing.rung, sound.evidenced, sound.climbing.above⟩

/-- A probe for 1320 is acknowledged twice, around a black hole: the second acknowledgement comes
too late, and only the one of the probe sent after the fallback confirms the size again. -/
theorem late_ack_after_blackhole_safe :
    let search := Machine.run step new
      [.tick 1000, .ack 0, .blackhole, .ack 0, .tick 4000, .ack 0, .ack 1]
    search.controller.currentSymbolSize = 1320 ∧
      ∃ sending ∈ search.acked, search.fallback ≤ sending ∧
        ∃ probeId, search.sent[sending]? = some (probeId, 1320) := by
  have size : (Machine.run step new [.tick 1000, .ack 0, .blackhole, .ack 0, .tick 4000, .ack 0,
      .ack 1]).controller.currentSymbolSize = 1320 := by decide
  refine ⟨size, ?_⟩
  have safe := (confirmed_size_safe
    [.tick 1000, .ack 0, .blackhole, .ack 0, .tick 4000, .ack 0, .ack 1] (by decide)).2.1
    (by rw [size]; decide)
  rwa [size] at safe

end Search

end Yip.Transport
