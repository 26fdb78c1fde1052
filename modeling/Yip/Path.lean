/-
This file models the path of one peer (`path.rs`): its direct address is tried first, then an
address learned from the rendezvous server, then the relay, each for a bounded window.
-/

import Yip.Primitives

namespace Yip

def directMs : Nat := 3000

def punchMs : Nat := 5000

/-- How far the search for a path to the peer has come. -/
inductive PathStage where
  | direct
  | punching
  | relaying
  | failed
  deriving DecidableEq, Repr

/-- What the owner of the path is to do next. -/
inductive PathAction where
  | idle
  | needLookup
  | probe (addr : SocketAddr)
  | relay
  | failed
  deriving DecidableEq, Repr

/-- The search for a path: direct first, then punching through the rendezvous, then its relay. -/
structure PathState where
  stage : PathStage
  hasRendezvous : Bool
  direct : Option SocketAddr
  candidate : Option SocketAddr
  stageStartedMs : Nat
  isCommitted : Bool
  isRelayOnly : Bool
  deriving DecidableEq, Repr

namespace PathState

def new (hasDirect hasRendezvous : Bool) (nowMs : Nat) : PathState where
  stage := if hasDirect then .direct else if hasRendezvous then .punching else .failed
  hasRendezvous := hasRendezvous
  direct := none
  candidate := none
  stageStartedMs := nowMs
  isCommitted := false
  isRelayOnly := false

def enter (path : PathState) (stage : PathStage) (nowMs : Nat) : PathState :=
  { path with stage := stage, stageStartedMs := nowMs }

def relayOnly (nowMs : Nat) : PathState :=
  { (new false true nowMs).enter .relaying nowMs with isRelayOnly := true }

def onDirectAddr (path : PathState) (addr : SocketAddr) : PathState :=
  { path with direct := some addr }

/-- The rendezvous told an address of the peer. -/
def onPeerCandidate (path : PathState) (addr : SocketAddr) (nowMs : Nat) : PathState :=
  let path := { path with candidate := some addr }
  match path.stage with
  | .direct => path.enter .punching nowMs
  | .punching | .relaying | .failed => path

def punchAction (path : PathState) : PathAction :=
  match path.candidate with
  | some addr => .probe addr
  | none => .needLookup

/-- The direct stage is over; without a rendezvous so is the search. -/
def leaveDirect (path : PathState) (nowMs : Nat) : PathState × PathAction :=
  if path.hasRendezvous then
    let path := path.enter .punching nowMs
    (path, path.punchAction)
  else (path.enter .failed nowMs, .failed)

/-- Where the search stands at this time, and what to do. -/
def advance (path : PathState) (nowMs : Nat) : PathState × PathAction :=
  if path.isRelayOnly then (path, .relay)
  else if path.isCommitted then (path, .idle)
  else
    let elapsed := nowMs - path.stageStartedMs
    match path.stage with
    | .direct =>
      match path.direct with
      | some addr => if elapsed < directMs then (path, .probe addr) else path.leaveDirect nowMs
      | none => path.leaveDirect nowMs
    | .punching =>
      if elapsed ≥ punchMs then (path.enter .relaying nowMs, .relay) else (path, path.punchAction)
    | .relaying => (path, .relay)
    | .failed => (path, .failed)

def committed (path : PathState) : PathState := { path with isCommitted := true }

end PathState

end Yip
