/-
This file models how the daemon's TLS pump (`tls.rs`) dials a peer it is the client of, and how long
it waits before it dials again.
-/

import Mathlib.Algebra.Group.Nat.Defs
import Yip.Lib.Machine

namespace Yip.TlsPump

open List

def initialBackoffMs : Nat := 100

def maxBackoffMs : Nat := 5000

def handshakeTimeout : Nat := 10000

inductive PeerConn where
  | disconnected (backoffMs nextDial : Nat)
  | connecting (start : Nat)
  | connected (start : Nat) (innerConfirmed : Bool)

/-- What a connection attempt has come to: for a dial, also that the socket could not be connected
or registered. -/
inductive Outcome where
  | finished
  | pending
  | failed

/-- The places at which the pump touches the slot of a client: it dials, checks both timeouts,
drives a pending handshake, sees inner traffic, and meets a read, framing or write error. -/
inductive Event where
  | dial (outcome : Outcome) (now : Nat)
  | check (innerTimeout now : Nat)
  | drive (outcome : Outcome) (now : Nat)
  | confirm (now : Nat)
  | broken (now : Nat)

def Event.now : Event → Nat
  | .dial _ now | .check _ now | .drive _ now | .confirm now | .broken now => now

namespace PeerConn

def newDisconnected (now : Nat) : PeerConn := .disconnected initialBackoffMs now

def recordFailure (conn : PeerConn) (now : Nat) : PeerConn :=
  let currentBackoff := match conn with
    | .disconnected backoffMs _ => backoffMs
    | _ => initialBackoffMs
  .disconnected (min (currentBackoff * 2) maxBackoffMs) (now + currentBackoff)

def isConnecting : PeerConn → Bool
  | .connecting _ => true
  | _ => false

def isConnected : PeerConn → Bool
  | .connected _ _ => true
  | _ => false

def shouldDial (now : Nat) : PeerConn → Bool
  | .disconnected _ nextDial => nextDial ≤ now
  | _ => false

def isHandshakeTimeout (now : Nat) : PeerConn → Bool
  | .connecting start => handshakeTimeout ≤ now - start
  | _ => false

def isInnerExpired (now timeout : Nat) : PeerConn → Bool
  | .connected start innerConfirmed => !innerConfirmed && timeout ≤ now - start
  | _ => false

def markInnerConfirmed : PeerConn → PeerConn
  | .connected start _ => .connected start true
  | conn => conn

def step (conn : PeerConn) : Event → PeerConn
  | .dial outcome now =>
    if conn.shouldDial now then
      match outcome with
      | .finished => .connected now false
      | .pending => .connecting now
      | .failed => conn.recordFailure now
    else conn
  | .check innerTimeout now =>
    if conn.isHandshakeTimeout now then conn.recordFailure now
    else if conn.isInnerExpired now innerTimeout then conn.recordFailure now
    else conn
  | .drive outcome now =>
    if conn.isConnecting then
      match outcome with
      | .finished => .connected now false
      | .pending => conn
      | .failed => conn.recordFailure now
    else conn
  | .confirm _ => conn.markInnerConfirmed
  | .broken now => if conn.isConnected then conn.recordFailure now else conn

/-- The event ends an attempt that had not completed. -/
def attemptFails (conn : PeerConn) : Event → Bool
  | .dial .failed now => conn.shouldDial now
  | .check _ now => conn.isHandshakeTimeout now
  | .drive .failed _ => conn.isConnecting
  | _ => false

theorem step_of_attemptFails {event : Event} (conn : PeerConn)
    (fails : conn.attemptFails event = true) : conn.step event = conn.recordFailure event.now := by
  cases event with
  | dial outcome now =>
    cases outcome with
    | failed => exact if_pos fails
    | finished | pending => cases fails
  | check innerTimeout now => exact if_pos fails
  | drive outcome now =>
    cases outcome with
    | failed => exact if_pos fails
    | finished | pending => cases fails
  | confirm | broken => cases fails

end PeerConn

/-! ### Streaks of failures -/

/-- A slot with the number of attempts that failed since the last completed connection, and the
time of the last failure or loss. -/
structure Slot where
  conn : PeerConn
  failures : Nat
  since : Option Nat

namespace Slot

def new (now : Nat) : Slot := ⟨.newDisconnected now, 0, none⟩

def step (slot : Slot) (event : Event) : Slot where
  conn := slot.conn.step event
  failures :=
    if slot.conn.attemptFails event then slot.failures + 1
    else if (slot.conn.step event).isConnected then 0
    else slot.failures
  since :=
    if slot.conn.attemptFails event ∨ slot.conn.isConnected ∧ !(slot.conn.step event).isConnected
    then some event.now
    else slot.since

/-- The next dial comes late enough after the last failure, or 100 ms after the connection was
lost. -/
def Waits : Slot → Prop
  | ⟨.disconnected _ nextDial, 0, some time⟩ => nextDial = time + 100
  | ⟨.disconnected _ nextDial, failures + 1, some time⟩ =>
    time + min (100 * 2 ^ failures) 5000 ≤ nextDial
  | _ => True

def PendingFails (slot : Slot) (event : Event) : Prop :=
  slot.conn.isConnecting ∧ slot.conn.attemptFails event

/-- The stored delay is that of the next failure. -/
def Grown (slot : Slot) : Prop :=
  slot.Waits ∧ match slot.conn with
    | .disconnected backoffMs _ => min (100 * 2 ^ slot.failures) 5000 ≤ backoffMs
    | .connecting _ => True
    | .connected _ _ => slot.failures = 0

variable {slot : Slot} {event : Event}

theorem Grown.recordFailure {conn : PeerConn} {failures now : Nat} {since : Option Nat}
    (grown : Grown ⟨conn, failures, since⟩) (first : conn.isConnecting → failures = 0)
    (live : ¬conn.isConnected) : Grown ⟨conn.recordFailure now, failures + 1, some now⟩ := by
  cases conn with
  | disconnected backoffMs nextDial =>
    refine ⟨Nat.add_le_add_left grown.2 now, ?_⟩
    have stored : min (100 * 2 ^ failures) 5000 ≤ backoffMs := grown.2
    show min (100 * 2 ^ (failures + 1)) 5000 ≤ min (backoffMs * 2) 5000
    rw [Nat.pow_succ]
    omega
  | connecting start =>
    obtain rfl : failures = 0 := first rfl
    exact ⟨Nat.le_refl _, Nat.le_refl _⟩
  | connected start confirmed => exact absurd rfl live

theorem Grown.lost (start now : Nat) (confirmed : Bool) :
    Grown ⟨(PeerConn.connected start confirmed).recordFailure now, 0, some now⟩ :=
  ⟨rfl, show min (100 * 2 ^ 0) 5000 ≤ min (100 * 2) 5000 by decide⟩

theorem Grown.fails (grown : slot.Grown) (fails : slot.conn.attemptFails event = true)
    (first : slot.PendingFails event → slot.failures = 0) (live : ¬slot.conn.isConnected) :
    (slot.step event).Grown := by
  unfold Slot.step
  rw [slot.conn.step_of_attemptFails fails, fails, if_pos rfl, if_pos (Or.inl rfl)]
  exact grown.recordFailure (fun pending => first ⟨pending, fails⟩) live

theorem Grown.step (grown : slot.Grown) (first : slot.PendingFails event → slot.failures = 0) :
    (slot.step event).Grown := by
  obtain ⟨conn, failures, since⟩ := slot
  cases conn with
  | disconnected backoffMs nextDial =>
    cases event with
    | dial outcome now =>
      by_cases due : nextDial ≤ now
      · cases outcome with
        | finished | pending =>
          simp [Slot.step, PeerConn.step, PeerConn.shouldDial, PeerConn.attemptFails,
            PeerConn.isConnected, Grown, Waits, due]
        | failed => exact grown.fails (decide_eq_true due) first Bool.false_ne_true
      · cases outcome <;>
          simpa [Slot.step, PeerConn.step, PeerConn.shouldDial, PeerConn.attemptFails,
            PeerConn.isConnected, due] using grown
    | drive outcome now => cases outcome <;> exact grown
    | check | confirm | broken => exact grown
  | connecting start =>
    cases event with
    | check innerTimeout now =>
      by_cases late : handshakeTimeout ≤ now - start
      · exact grown.fails (decide_eq_true late) first Bool.false_ne_true
      · simpa [Slot.step, PeerConn.step, PeerConn.isHandshakeTimeout, PeerConn.attemptFails,
          PeerConn.isInnerExpired, PeerConn.isConnected, late] using grown
    | drive outcome now =>
      cases outcome with
      | finished => exact ⟨trivial, rfl⟩
      | pending => exact grown
      | failed => exact grown.fails rfl first Bool.false_ne_true
    | dial outcome now => cases outcome <;> exact grown
    | confirm | broken => exact grown
  | connected start confirmed =>
    obtain rfl : failures = 0 := grown.2
    cases event with
    | check innerTimeout now =>
      cases late : (PeerConn.connected start confirmed).isInnerExpired now innerTimeout with
      | true =>
        have lost := Grown.lost start now confirmed
        simpa [Slot.step, PeerConn.step, PeerConn.isHandshakeTimeout, PeerConn.attemptFails,
          PeerConn.isConnected, PeerConn.recordFailure, late, Event.now] using lost
      | false =>
        simpa [Slot.step, PeerConn.step, PeerConn.isHandshakeTimeout, PeerConn.attemptFails,
          PeerConn.isConnected, late] using grown
    | confirm now => exact ⟨trivial, rfl⟩
    | broken now => exact Grown.lost start now confirmed
    | dial outcome now | drive outcome now => cases outcome <;> exact grown

/-- The delay grows over a run exactly if no attempt but the first of a streak fails while it is
pending: such a failure is recorded with the first delay again. -/
theorem backoff_grows_iff (start : Nat) (events : List Event) :
    (∀ before, before <+: events → (Machine.run step (new start) before).Waits) ↔
      ∀ before event, before ++ [event] <+: events →
        (Machine.run step (new start) before).PendingFails event →
        (Machine.run step (new start) before).failures = 0 := by
  constructor
  · intro waits before event isPrefix ⟨pending, failed⟩
    have waited := waits _ isPrefix
    rw [Machine.run_append, Machine.run_cons, Machine.run_nil] at waited
    generalize Machine.run step (new start) before = slot at *
    unfold Slot.step at waited
    rw [slot.conn.step_of_attemptFails failed, failed, if_pos rfl, if_pos (Or.inl rfl)] at waited
    obtain ⟨conn, failures, since⟩ := slot
    cases conn with
    | disconnected | connected => cases pending
    | connecting begun =>
      have early : event.now + min (100 * 2 ^ failures) 5000 ≤ event.now + 100 := waited
      cases failures with
      | zero => rfl
      | succ failures =>
        have doubled : 1 ≤ 2 ^ failures := Nat.one_le_two_pow
        rw [Nat.pow_succ] at early
        omega
  · intro first before isPrefix
    refine And.left (b := _) (?_ : Grown _)
    induction before using reverseRecOn with
    | nil => exact ⟨trivial, Nat.min_le_left _ _⟩
    | append_singleton before event ih =>
      rw [Machine.run_append, Machine.run_cons, Machine.run_nil]
      exact Grown.step (ih ((prefix_append _ _).trans isPrefix)) (first before event isPrefix)

/-- Two handshakes in a row time out: the second failure is followed by a dial after 100 ms. -/
theorem second_timeout_dials_early :
    let reached := Machine.run step (new 0) [.dial .pending 0, .check 0 10000, .dial .pending 10100,
      .check 0 20100]
    reached = ⟨.disconnected 200 20200, 2, some 20100⟩ ∧ ¬reached.Waits :=
  ⟨rfl, show ¬20100 + min (100 * 2 ^ 1) 5000 ≤ 20200 by decide⟩

end Slot

end Yip.TlsPump
