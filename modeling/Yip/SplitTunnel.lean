/-
This file models the split tunnel of a node: which destinations bypass the overlay, and how its
configuration is changed while it runs (`control.rs`, `peer_manager/mod.rs`).
-/

import Mathlib.Data.List.Basic

namespace Yip.SplitTunnel

inductive IpAddr where
  | v4 (addr : BitVec 32)
  | v6 (addr : BitVec 128)
  deriving DecidableEq

structure TextReaders where
  trim : String → String
  parseIpAddr : String → Except String IpAddr
  parseU8 : String → Except String Nat

def parseCidr (readers : TextReaders) (cidrStr : String) : Except String (IpAddr × Nat) := do
  let parseIp := fun part => (readers.parseIpAddr part).mapError fun e =>
    "invalid IP address '" ++ part ++ "': " ++ e
  match (readers.trim cidrStr).splitOn "/" with
  | [addr] =>
    match ← parseIp addr with
    | .v4 ip => return (.v4 ip, 32)
    | .v6 ip => return (.v6 ip, 128)
  | [addr, len] =>
    let ip ← parseIp addr
    let p ← (readers.parseU8 len).mapError fun e => "invalid prefix '" ++ len ++ "': " ++ e
    match ip with
    | .v4 _ =>
      if p > 32 then throw ("IPv4 prefix /" ++ toString p ++ " must be <= 32") else return (ip, p)
    | .v6 _ =>
      if p > 128 then throw ("IPv6 prefix /" ++ toString p ++ " must be <= 128")
      else return (ip, p)
  | _ => throw ("invalid CIDR syntax: '" ++ cidrStr ++ "'")

def maskedEq {width : Nat} (target net : BitVec width) (len : Nat) : Bool :=
  if len = 0 then true
  else if len > width then false
  else
    let low := (BitVec.ofNat width 1 <<< (width - len)) - 1
    let mask := if len ≥ width then BitVec.allOnes width else ~~~low
    target &&& mask == net &&& mask

def ipMatchesCidr (target net : IpAddr) (len : Nat) : Bool :=
  match target, net with
  | .v4 t, .v4 n => maskedEq t n len
  | .v6 t, .v6 n => maskedEq t n len
  | _, _ => false

inductive SplitMode where
  | exclude
  | include
  deriving DecidableEq

structure SplitTunnelConfig where
  enabled : Bool
  mode : SplitMode
  cidrs : List String
  domains : List String
  apps : List String
  deriving DecidableEq

structure SplitTunnelState extends SplitTunnelConfig where
  parsedCidrs : List (IpAddr × Nat)
  deriving DecidableEq

namespace SplitTunnelState

def matchesIp (state : SplitTunnelState) (ip : IpAddr) : Bool :=
  state.parsedCidrs.any fun cidr => ipMatchesCidr ip cidr.1 cidr.2

def shouldBypass (state : SplitTunnelState) (ip : IpAddr) : Bool :=
  if !state.enabled then false
  else
    match state.mode with
    | .exclude => state.matchesIp ip
    | .include => !state.matchesIp ip

def setSplitTunnelConfig (readers : TextReaders) (state : SplitTunnelState)
    (enabled : Option Bool) (mode : Option SplitMode) (cidrs domains apps : Option (List String)) :
    SplitTunnelState × Except String SplitTunnelConfig :=
  let state := { state with enabled := enabled.getD state.enabled }
  let state := { state with mode := mode.getD state.mode }
  let parsed : Except String SplitTunnelState :=
    match cidrs with
    | none => .ok state
    | some list => do
      let parsed ← list.mapM (parseCidr readers)
      return { state with cidrs := list, parsedCidrs := parsed }
  match parsed with
  | .error reason => (state, .error reason)
  | .ok state =>
    let state := { state with domains := domains.getD state.domains }
    let state := { state with apps := apps.getD state.apps }
    (state, .ok state.toSplitTunnelConfig)

variable {readers : TextReaders} {state : SplitTunnelState} {enabled : Option Bool}
  {mode : Option SplitMode} {cidrs domains apps : Option (List String)} {reason : String}

theorem set_of_error
    (failed : (state.setSplitTunnelConfig readers enabled mode cidrs domains apps).2 =
      .error reason) :
    (state.setSplitTunnelConfig readers enabled mode cidrs domains apps).1 =
      { state with enabled := enabled.getD state.enabled, mode := mode.getD state.mode } := by
  unfold setSplitTunnelConfig at failed ⊢
  dsimp only at failed ⊢
  split at failed
  · rfl
  · cases failed

end SplitTunnelState

open SplitTunnelState

/-- A change that fails leaves the state as it was exactly if it does not set the switch or the mode
to something else. -/
theorem failed_change_inert_iff (readers : TextReaders) (state : SplitTunnelState)
    (enabled : Option Bool) (mode : Option SplitMode) (cidrs domains apps : Option (List String))
    (reason : String)
    (failed : (state.setSplitTunnelConfig readers enabled mode cidrs domains apps).2 =
      .error reason) :
    (state.setSplitTunnelConfig readers enabled mode cidrs domains apps).1 = state ↔
      (∀ value ∈ enabled, value = state.enabled) ∧ ∀ value ∈ mode, value = state.mode := by
  rw [set_of_error failed]
  obtain ⟨⟨isEnabled, isMode, known, names, programs⟩, parsed⟩ := state
  cases enabled <;> cases mode <;> simp

def noAddress : TextReaders := ⟨id, fun _ => .error "invalid IP address syntax", fun _ => .ok 0⟩

theorem parseCidr_noAddress (cidrStr : String) :
    ∃ reason, parseCidr noAddress cidrStr = .error reason := by
  unfold parseCidr
  split
  · exact ⟨_, rfl⟩
  · exact ⟨_, rfl⟩
  · exact ⟨_, rfl⟩

theorem set_noAddress (state : SplitTunnelState) (enabled : Option Bool) (mode : Option SplitMode)
    (cidrStr : String) :
    ∃ reason, (state.setSplitTunnelConfig noAddress enabled mode (some [cidrStr]) none none).2 =
      .error reason := by
  obtain ⟨reason, refused⟩ := parseCidr_noAddress cidrStr
  refine ⟨reason, ?_⟩
  unfold setSplitTunnelConfig
  dsimp only
  rw [List.mapM_cons, refused]
  rfl

def disabled : SplitTunnelState := ⟨⟨false, .exclude, [], [], []⟩, []⟩

theorem failed_list_inert : (disabled.setSplitTunnelConfig noAddress none none
    (some ["not_an_ip"]) none none).1 = disabled := by
  obtain ⟨reason, failed⟩ := set_noAddress disabled none none "not_an_ip"
  exact (failed_change_inert_iff noAddress disabled none none _ none none reason failed).mpr
    ⟨by simp, by simp⟩

/-- The call fails on its list, and from then on all traffic bypasses the overlay. -/
theorem failed_change_bypasses :
    let after := disabled.setSplitTunnelConfig noAddress (some true) (some .include)
      (some ["not_an_ip"]) none none
    (∃ reason, after.2 = .error reason) ∧ disabled.shouldBypass (.v4 0) = false ∧
      after.1.shouldBypass (.v4 0) = true := by
  obtain ⟨reason, failed⟩ := set_noAddress disabled (some true) (some .include) "not_an_ip"
  refine ⟨⟨reason, failed⟩, rfl, ?_⟩
  rw [set_of_error failed]
  rfl

end Yip.SplitTunnel
