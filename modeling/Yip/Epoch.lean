/-
This file models the epochs of one peer (`epoch.rs`): the session in use, the one a responder
has derived and not yet seen used (`next`), and the superseded one that still receives
(`previous`).
-/

import Yip.Inbound
import Yip.Transparent

namespace Yip

open Crypto Transport

def rekeyIntervalMs : Nat := 120000

def previousEpochGraceMs : Nat := 15000

/-- A rekey this side began and has no answer to. -/
structure RekeyInFlight (env : Primitives) where
  hs : env.noise.HandshakeState
  initPkt : List Byte
  startedMs : Nat
  lastSentMs : Nat
  retryMs : Nat
  target : SocketAddr

/-- Keys this side gave out as responder and has not seen used. -/
structure NextEpoch (env : Primitives) where
  dp : DataPlane env
  initEph : List Byte
  cachedResp : List Byte

/-- The keys of a session over time: the current ones, those before them for a grace period, and
those to come. -/
structure EpochSet (env : Primitives) where
  current : DataPlane env
  currentCreatedMs : Nat
  next : Option (NextEpoch env)
  previous : Option (DataPlane env)
  previousRetireMs : Nat
  rekey : Option (RekeyInFlight env)
  epoch : Nat

namespace EpochSet

variable {env : Primitives}

def new (current : DataPlane env) (nowMs : Nat) : EpochSet env where
  current := current
  currentCreatedMs := nowMs
  next := none
  previous := none
  previousRetireMs := 0
  rekey := none
  epoch := 1

def setFecRepairRatio (set : EpochSet env) (percent : Nat) : EpochSet env :=
  { set with
    current := set.current.setFecRepairRatio percent
    next := set.next.map fun next => { next with dp := next.dp.setFecRepairRatio percent } }

def setPeerAddr (set : EpochSet env) (addr : SocketAddr) : EpochSet env :=
  { set with
    current := set.current.setPeerAddr addr
    next := set.next.map fun next => { next with dp := next.dp.setPeerAddr addr }
    previous := set.previous.map (·.setPeerAddr addr)
    rekey := set.rekey.map fun rekey => { rekey with target := addr } }

variable (set : EpochSet env) (nowMs : Nat)

/-- New keys become current, and the old ones stay for the grace period. -/
def supersede (set : EpochSet env) (dp old : DataPlane env) (nowMs : Nat) : EpochSet env :=
  { set with
    current := dp
    currentCreatedMs := nowMs
    previous := some old
    previousRetireMs := saturatingAdd nowMs previousEpochGraceMs
    epoch := saturatingAdd set.epoch 1 }

def openPrevious (set : EpochSet env) (datagram : List Byte) (nowMs : Nat) :
    EpochSet env × Outcome :=
  match set.previous with
  | none => (set, .none)
  | some previous =>
    let (previous, outcome) := previous.onUdpDatagram datagram nowMs
    ({ set with previous := some previous }, outcome)

/-- Tries the keys to come; the first datagram they open makes them current. -/
def openNext (set : EpochSet env) (datagram : List Byte) (nowMs : Nat) :
    EpochSet env × Outcome :=
  match set.next with
  | none => set.openPrevious datagram nowMs
  | some next =>
    let (dp, outcome) := next.dp.onUdpDatagram datagram nowMs
    if outcome = .none then
      { set with next := some { next with dp := dp } }.openPrevious datagram nowMs
    else ({ set with next := none }.supersede dp set.current nowMs, outcome)

/-- Tries the current keys, then those to come, then the previous ones. -/
def inboundOpen (set : EpochSet env) (datagram : List Byte) (nowMs : Nat) :
    EpochSet env × Outcome :=
  let (current, outcome) := set.current.onUdpDatagram datagram nowMs
  let set := { set with current := current }
  if outcome = .none then set.openNext datagram nowMs else (set, outcome)

def promoteFromRekey (set : EpochSet env) (dp : DataPlane env) (nowMs : Nat) : EpochSet env :=
  { set with rekey := none }.supersede dp set.current nowMs

def installNext (set : EpochSet env) (dp : DataPlane env) (initEph cachedResp : List Byte) :
    EpochSet env :=
  { set with next := some ⟨dp, initEph, cachedResp⟩ }

def nextCachedRespFor (set : EpochSet env) (initEph : List Byte) : Option (List Byte) :=
  set.next.bind fun next => if next.initEph = initEph then some next.cachedResp else none

/-- Drops the previous keys after the grace period. -/
def retirePreviousIfDue (set : EpochSet env) (nowMs : Nat) : EpochSet env :=
  if set.previous.isSome ∧ nowMs ≥ set.previousRetireMs then { set with previous := none } else set

/-- Whether it is time for new keys; the loser of a glare waits longer. -/
def needsRekey (set : EpochSet env) (nowMs : Nat) (isGlareWinner : Bool) (intervalMs : Nat) :
    Bool :=
  if set.rekey.isSome then false
  else
    let age := nowMs - set.currentCreatedMs
    if isGlareWinner then intervalMs ≤ age else min (intervalMs * 2) (u64Limit - 1) ≤ age

/-! ### The confirmed switch -/

/-- The datagram makes the keys to come the current ones. -/
def Promotes (set : EpochSet env) (next : NextEpoch env) (datagram : List Byte) (nowMs : Nat) :
    Prop :=
  (set.inboundOpen datagram nowMs).1.next = none ∧
    (set.inboundOpen datagram nowMs).1.current = (next.dp.onUdpDatagram datagram nowMs).1 ∧
    (set.inboundOpen datagram nowMs).1.previous =
      some (set.current.onUdpDatagram datagram nowMs).1

theorem openPrevious_next (datagram : List Byte) (nowMs : Nat) :
    (set.openPrevious datagram nowMs).1.next = set.next := by
  unfold openPrevious
  split <;> rfl

theorem openPrevious_current (datagram : List Byte) (nowMs : Nat) :
    (set.openPrevious datagram nowMs).1.current = set.current := by
  unfold openPrevious
  split <;> rfl

theorem promotes_iff_outcomes (next : NextEpoch env)
    (holds : set.next = some next) (datagram : List Byte) (nowMs : Nat) :
    set.Promotes next datagram nowMs ↔
      (set.current.onUdpDatagram datagram nowMs).2 = .none ∧
        (next.dp.onUdpDatagram datagram nowMs).2 ≠ .none := by
  unfold Promotes inboundOpen
  dsimp only
  by_cases quiet : (set.current.onUdpDatagram datagram nowMs).2 = .none
  · rw [if_pos quiet]
    unfold openNext
    simp only [holds]
    by_cases silent : (next.dp.onUdpDatagram datagram nowMs).2 = .none
    · rw [if_pos silent]
      simp [openPrevious_next, silent]
    · rw [if_neg silent]
      simp [supersede, quiet, silent]
  · rw [if_neg quiet]
    simp [holds, quiet]

theorem openPrevious_rekey (datagram : List Byte) (nowMs : Nat) :
    (set.openPrevious datagram nowMs).1.rekey = set.rekey := by
  unfold openPrevious
  split <;> rfl

/-- A datagram is offered to `current` and perhaps to `next`, unless it promotes `next`. -/
theorem inboundOpen_cases (datagram : List Byte) (nowMs : Nat) :
    (set.inboundOpen datagram nowMs).1.rekey = set.rekey ∧
      ((set.inboundOpen datagram nowMs).1.current = (set.current.onUdpDatagram datagram nowMs).1 ∧
          ((set.inboundOpen datagram nowMs).1.next = set.next ∨
            (set.inboundOpen datagram nowMs).1.next = set.next.map fun next =>
              { next with dp := (next.dp.onUdpDatagram datagram nowMs).1 }) ∨
        ∃ next, set.next = some next ∧ set.Promotes next datagram nowMs) := by
  unfold Promotes inboundOpen
  dsimp only
  split
  · unfold openNext
    dsimp only
    split
    · rw [openPrevious_rekey, openPrevious_current, openPrevious_next]
      exact ⟨rfl, Or.inl ⟨rfl, Or.inl rfl⟩⟩
    · rename_i next holds
      split
      · rw [openPrevious_rekey, openPrevious_current, openPrevious_next, holds]
        exact ⟨rfl, Or.inl ⟨rfl, Or.inr rfl⟩⟩
      · exact ⟨rfl, Or.inr ⟨next, holds, rfl, rfl, rfl⟩⟩
  · exact ⟨rfl, Or.inl ⟨rfl, Or.inl rfl⟩⟩

/-- When the responder confirms: of the authentic datagrams under `next`, those that `next` answers
or delivers. A Control datagram that opens under `next` and not under `current` promotes exactly
when its content is answered, and a Data datagram that completes a packet under `next` promotes
exactly when the current epoch does not deliver it first. -/
theorem confirmed_switch_iff (set : EpochSet env) (next : NextEpoch env)
    (holds : set.next = some next) (datagram : List Byte) (nowMs : Nat)
    (authentic : (next.dp.controlPlaintext datagram ≠ none ∧
        set.current.controlPlaintext datagram = none) ∨
      next.dp.dataPlaintext datagram nowMs ≠ none) :
    set.Promotes next datagram nowMs ↔
      (∃ plaintext, next.dp.controlPlaintext datagram = some plaintext ∧
        next.dp.Answers plaintext nowMs) ∨
      (next.dp.dataPlaintext datagram nowMs ≠ none ∧
        set.current.dataPlaintext datagram nowMs = none) := by
  have delivered := DataPlane.onUdpDatagram_snd set.current datagram nowMs
  rw [promotes_iff_outcomes set next holds, DataPlane.onUdpDatagram_snd next.dp,
    ← not_not (a := (set.current.onUdpDatagram datagram nowMs).2 = .none), ← ne_eq, delivered]
  rcases authentic with ⟨opens, sealed⟩ | completes
  · have notData := next.dp.dataPlaintext_of_control next.dp datagram nowMs opens
    have notCurrent := next.dp.dataPlaintext_of_control set.current datagram nowMs opens
    simp [notData, notCurrent, sealed]
  · have notControl : ∀ dp : DataPlane env, dp.controlPlaintext datagram = none := by
      intro dp
      by_contra control
      exact completes (dp.dataPlaintext_of_control next.dp datagram nowMs control)
    simp [notControl, completes]

/-! ### Datagrams of nobody -/

variable {datagram : List Byte}

theorem openPrevious_of_foreign (foreign : ∀ previous ∈ set.previous, previous.Foreign datagram) :
    set.openPrevious datagram nowMs = (set, .none) := by
  unfold openPrevious
  split
  · rfl
  · rename_i previous holds
    rw [DataPlane.onUdpDatagram_of_foreign (foreign previous holds)]
    dsimp only
    rw [← holds]

theorem openNext_of_foreign (foreign : ∀ next ∈ set.next, next.dp.Foreign datagram) :
    set.openNext datagram nowMs = set.openPrevious datagram nowMs := by
  unfold openNext
  split
  · rfl
  · rename_i next holds
    rw [DataPlane.onUdpDatagram_of_foreign (foreign next holds)]
    dsimp only
    rw [if_pos rfl, ← holds]

theorem inboundOpen_of_foreign (foreign : set.current.Foreign datagram) :
    set.inboundOpen datagram nowMs = set.openNext datagram nowMs := by
  unfold inboundOpen
  rw [DataPlane.onUdpDatagram_of_foreign foreign]
  dsimp only
  rw [if_pos rfl]

theorem openNext_current (datagram : List Byte) (nowMs : Nat) :
    (set.openNext datagram nowMs).1.current = set.current ∨
      (set.openNext datagram nowMs).1.previous = some set.current := by
  unfold openNext
  split
  · exact Or.inl (openPrevious_current ..)
  · dsimp only
    split
    · exact Or.inl (openPrevious_current ..)
    · exact Or.inr rfl

theorem inboundOpen_previous (foreign : ∀ previous ∈ set.previous, previous.Foreign datagram) :
    (set.inboundOpen datagram nowMs).1.previous = set.previous ∨
      ∃ next, set.next = some next ∧ set.Promotes next datagram nowMs := by
  have last : ∀ set' : EpochSet env, set'.previous = set.previous →
      (set'.openPrevious datagram nowMs).1.previous = set.previous := by
    intro set' same
    rw [openPrevious_of_foreign set' nowMs (by rw [same]; exact foreign), same]
  by_cases promotes : ∃ next, set.next = some next ∧ set.Promotes next datagram nowMs
  · exact Or.inr promotes
  left
  unfold inboundOpen
  dsimp only
  split
  · rename_i quiet
    unfold openNext
    split
    · exact last _ rfl
    · rename_i next holds
      have silent : (next.dp.onUdpDatagram datagram nowMs).2 = .none := by
        by_contra answered
        exact promotes ⟨next, holds, (promotes_iff_outcomes set next holds datagram nowMs).mpr
          ⟨quiet, answered⟩⟩
      dsimp only
      rw [if_pos silent]
      exact last _ rfl
  · rfl

/-- Unauthenticated input is inert. An epoch to which the datagram is foreign keeps its whole data
plane, in its place, or as the previous epoch if it was the current one until now. The one epoch
that is given up is the previous one when `next` takes over. A datagram that is foreign to all
epochs changes nothing and yields nothing. -/
theorem foreign_datagram_inert (set : EpochSet env) (datagram : List Byte) (nowMs : Nat) :
    (set.current.Foreign datagram →
        (set.inboundOpen datagram nowMs).1.current = set.current ∨
          (set.inboundOpen datagram nowMs).1.previous = some set.current) ∧
      (∀ next, set.next = some next → next.dp.Foreign datagram →
        (set.inboundOpen datagram nowMs).1.next = some next) ∧
      (∀ previous, set.previous = some previous → previous.Foreign datagram →
        (set.inboundOpen datagram nowMs).1.previous = some previous ∨
          ∃ next, set.next = some next ∧ set.Promotes next datagram nowMs) ∧
      (set.current.Foreign datagram → (∀ next ∈ set.next, next.dp.Foreign datagram) →
        (∀ previous ∈ set.previous, previous.Foreign datagram) →
        set.inboundOpen datagram nowMs = (set, .none)) := by
  refine ⟨fun current => ?_, fun next holds foreign => ?_, fun previous holds foreign => ?_,
    fun current next previous => ?_⟩
  · rw [inboundOpen_of_foreign set nowMs current]
    exact openNext_current set datagram nowMs
  · have others : ∀ set' : EpochSet env, set'.next = set.next →
        (set'.openNext datagram nowMs).1.next = some next := by
      intro set' same
      rw [openNext_of_foreign set' nowMs (by
        intro found isNext
        rw [same, holds] at isNext
        exact Option.some.inj isNext ▸ foreign), openPrevious_next, same, holds]
    unfold inboundOpen
    dsimp only
    split
    · exact others _ rfl
    · exact holds
  · rw [← holds]
    exact inboundOpen_previous set nowMs fun found isPrevious => by
      rw [holds] at isPrevious
      exact Option.some.inj isPrevious ▸ foreign
  · rw [inboundOpen_of_foreign set nowMs current, openNext_of_foreign set nowMs next,
      openPrevious_of_foreign set nowMs previous]

section Runs

open Transparent

def rekeyed : EpochSet (primitives .bulk) :=
  (EpochSet.new (dataPlane .bulk false 1 1200) 0).installNext (dataPlane .bulk false 2 1200) [] []

def controlUnderNext (frame : ControlFrame) : List Byte :=
  ((dataPlane .bulk true 2 1200).sealControl frame).2.elim [] (·.bytes)

/-- A probe is answered, and so confirms the new epoch. -/
theorem probe_confirms_next :
    rekeyed.Promotes ⟨dataPlane .bulk false 2 1200, [], []⟩
      (controlUnderNext (.mtuProbe 1 6 [])) 0 :=
  (confirmed_switch_iff rekeyed ⟨dataPlane .bulk false 2 1200, [], []⟩ rfl
    (controlUnderNext (.mtuProbe 1 6 [])) 0
    (Or.inl ⟨by decide +kernel, by decide +kernel⟩)).mpr
    (Or.inl ⟨(ControlFrame.mtuProbe 1 6 []).encode, by decide +kernel,
      show (dataPlane .bulk false 2 1200).session.sendCounter +
        (dataPlane .bulk false 2 1200).session.stride < u64Limit by decide⟩)

/-- The first loss report of the initiator opens under `next` and not under `current`. It reports
nothing missing, so there is nothing to answer, and the responder goes on with the old epoch. -/
theorem empty_report_not_promoted :
    (dataPlane .bulk false 2 1200).controlPlaintext (controlUnderNext (.feedback ⟨0, 0, []⟩)) =
        some (ControlFrame.feedback ⟨0, 0, []⟩).encode ∧
      rekeyed.current.controlPlaintext (controlUnderNext (.feedback ⟨0, 0, []⟩)) = none ∧
      (rekeyed.inboundOpen (controlUnderNext (.feedback ⟨0, 0, []⟩)) 0).1.next.isSome = true ∧
      (rekeyed.inboundOpen (controlUnderNext (.feedback ⟨0, 0, []⟩)) 0).1.epoch = rekeyed.epoch ∧
      (rekeyed.inboundOpen (controlUnderNext (.feedback ⟨0, 0, []⟩)) 0).1.previous.isNone =
        true := by
  decide +kernel

def graced : EpochSet (primitives .bulk) :=
  { rekeyed with previous := some (dataPlane .bulk false 3 1200) }

/-- A probe under `next` is foreign to the grace epoch and ends it all the same: `next` takes over,
and the current epoch takes the place of the previous one. -/
theorem promotion_drops_previous :
    (dataPlane .bulk false 3 1200).Foreign (controlUnderNext (.mtuProbe 1 6 [])) ∧
      graced.previous.map (·.connTag) = some (dataPlane .bulk false 3 1200).connTag ∧
      (graced.inboundOpen (controlUnderNext (.mtuProbe 1 6 [])) 0).1.previous.map (·.connTag) =
        some (dataPlane .bulk false 1 1200).connTag ∧
      (dataPlane .bulk false 1 1200).connTag ≠ (dataPlane .bulk false 3 1200).connTag ∧
      ((graced.inboundOpen (controlUnderNext (.mtuProbe 1 6 [])) 0).1.next.isNone ∧
        (graced.inboundOpen (controlUnderNext (.mtuProbe 1 6 [])) 0).1.current.connTag ≠
          (dataPlane .bulk false 3 1200).connTag) := by
  decide +kernel

end Runs

end EpochSet

end Yip
