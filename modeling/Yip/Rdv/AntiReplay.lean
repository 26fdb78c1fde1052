/-
This file is about registrations that are played again.
-/

import Yip.Rdv.Server
import Yip.Members.Directory

namespace Yip.Rdv

open Crypto Members Option

inductive Path where
  | udp
  | tls
  deriving DecidableEq

structure Registration where
  path : Path
  node : NodeId
  counter : Nat
  deriving DecidableEq

inductive Event where
  | datagram (src : Members.SocketAddr) (message : Message) (nowMs nowSecs : Nat)
  | connection (buf : List Byte) (nowMs nowSecs : Nat)
  | sweep (nowMs : Nat)

namespace RendezvousServer

section Registrations

variable (suite : Suite) (deobfuscate : Bytes 16 → List Byte → Option (Byte × List Byte))
  (obfKey : Bytes 16)

def carried (server : RendezvousServer) : Event → Option Registration
  | .datagram _ message _ nowSecs =>
    (server.believed suite message nowSecs).map fun (node, counter) => ⟨.udp, node, counter⟩
  | .connection buf _ nowSecs =>
    ((firstMessage deobfuscate obfKey buf).bind fun message =>
      server.believedTls suite obfKey message nowSecs).map fun (node, counter) =>
        ⟨.tls, node, counter⟩
  | .sweep _ => none

def admitsNow (server : RendezvousServer) (registration : Registration) : Event → Bool
  | .datagram src _ nowMs _ =>
    (server.rateOk src nowMs).2 &&
      ((server.rateOk src nowMs).1.registerIfFresh registration.node registration.counter src
        nowMs).2
  | .connection _ nowMs _ =>
    (server.registerIfFreshTls registration.node registration.counter nowMs).2
  | .sweep _ => false

def accepted (server : RendezvousServer) (event : Event) : Option Registration :=
  (server.carried suite deobfuscate obfKey event).filter fun registration =>
    server.admitsNow registration event

def step (server : RendezvousServer) : Event → RendezvousServer
  | .datagram src message nowMs nowSecs => (server.handle suite src message nowMs nowSecs).1
  | .connection buf nowMs nowSecs =>
    (server.classifyFirstFrameAt suite deobfuscate obfKey buf nowMs nowSecs).1
  | .sweep nowMs => server.sweep nowMs

def lastCounter (server : RendezvousServer) (path : Path) (node : NodeId) : Option Nat :=
  match path with
  | .udp => (server.regs.lookup node).map (·.lastCounter)
  | .tls => (server.tlsSeen.lookup node).map (·.lastCounter)

def liveCounter (server : RendezvousServer) (path : Path) (node : NodeId) (nowMs : Nat) :
    Option Nat :=
  match path with
  | .udp => (server.liveReg node nowMs).map (·.lastCounter)
  | .tls => (server.liveSeen node nowMs).map (·.lastCounter)

end Registrations

end RendezvousServer

def Event.nowMs : Event → Nat
  | .datagram _ _ nowMs _ => nowMs
  | .connection _ nowMs _ => nowMs
  | .sweep nowMs => nowMs

namespace RendezvousServer

/-! ### One step -/

section Step

variable {suite : Suite} {deobfuscate : Bytes 16 → List Byte → Option (Byte × List Byte)}
  {obfKey : Bytes 16} {server after : RendezvousServer}

/-- A registration is entered, ahead of the live one; no other entry changes. -/
structure Enters (server after : RendezvousServer) (registration : Registration) (nowMs : Nat) :
    Prop where
  ahead : ∀ last ∈ server.liveCounter registration.path registration.node nowMs,
    last < registration.counter
  entry : after.lastCounter registration.path registration.node = some registration.counter
  others : ∀ path node, (path, node) ≠ (registration.path, registration.node) →
    after.lastCounter path node = server.lastCounter path node

def Keeps (server after : RendezvousServer) : Prop :=
  ∀ path node last, after.lastCounter path node = some last →
    server.lastCounter path node = some last

theorem keeps_of_eq (regs : after.regs = server.regs) (tlsSeen : after.tlsSeen = server.tlsSeen) :
    Keeps server after := by
  rintro (_ | _) node last isLast
  · rw [lastCounter, ← regs]
    exact isLast
  · rw [lastCounter, ← tlsSeen]
    exact isLast

theorem Registers.enters {node : NodeId} {counter nowMs : Nat} {src : Members.SocketAddr}
    (registers : Registers server after node counter src nowMs)
    (fresh : server.Fresh node counter nowMs) (tlsSeen : after.tlsSeen = server.tlsSeen) :
    Enters server after ⟨.udp, node, counter⟩ nowMs := by
  refine ⟨?_, ?_, ?_⟩
  · intro last isLive
    obtain ⟨reg, isReg, rfl⟩ := map_eq_some_iff.mp isLive
    exact fresh.1 reg isReg
  · obtain ⟨record, entered⟩ := registers.entry
    rw [lastCounter, entered, map_some]
  · rintro (_ | _) other apart
    · have different : other ≠ node := fun same => apart (by rw [same])
      rw [lastCounter, lastCounter, registers.others other different]
    · rw [lastCounter, lastCounter, tlsSeen]

theorem enters_tls {node : NodeId} {counter nowMs : Nat}
    (fresh : ∀ seen ∈ server.liveSeen node nowMs, seen.lastCounter < counter)
    (entered : after = { server with
      tlsSeen := server.tlsSeen.insert node ⟨counter, saturatingAdd nowMs regTtlMs⟩ }) :
    Enters server after ⟨.tls, node, counter⟩ nowMs := by
  subst entered
  refine ⟨?_, ?_, ?_⟩
  · intro last isLive
    obtain ⟨seen, isSeen, rfl⟩ := map_eq_some_iff.mp isLive
    exact fresh seen isSeen
  · rw [lastCounter, AList.lookup_insert, map_some]
  · rintro (_ | _) other apart
    · rfl
    · have different : other ≠ node := fun same => apart (by rw [same])
      rw [lastCounter, lastCounter, AList.lookup_insert_ne different]

theorem step_cases (event : Event) :
    (∃ registration, server.accepted suite deobfuscate obfKey event = some registration ∧
      Enters server (server.step suite deobfuscate obfKey event) registration event.nowMs) ∨
    (server.accepted suite deobfuscate obfKey event = none ∧
      Keeps server (server.step suite deobfuscate obfKey event)) := by
  cases event with
  | datagram src message nowMs nowSecs =>
    obtain ⟨rates, counted⟩ := server.rateOk_fst src nowMs
    unfold accepted carried admitsNow step handle
    dsimp only
    rw [counted]
    cases (server.rateOk src nowMs).2 with
    | false =>
      refine Or.inr ⟨?_, keeps_of_eq rfl rfl⟩
      simp
    | true =>
      rw [if_pos rfl]
      -- the budget is no part of what a registration is judged by
      have believedSame : ({ server with rates := rates } : RendezvousServer).believed suite message
          nowSecs = server.believed suite message nowSecs := rfl
      have tlsSeen := answer_tlsSeen suite { server with rates := rates } src message nowMs nowSecs
      cases believes : server.believed suite message nowSecs with
      | none =>
        rw [believes] at believedSame
        exact Or.inr ⟨rfl, keeps_of_eq (answer_of_not_believed believedSame) tlsSeen⟩
      | some registration =>
        obtain ⟨node, counter⟩ := registration
        rw [believes] at believedSame
        rcases answer_of_believed believedSame with ⟨fresh, registers⟩ | ⟨stale, same⟩
        · have enters := registers.enters fresh tlsSeen
          refine Or.inl ⟨⟨.udp, node, counter⟩, ?_, enters.ahead, enters.entry, enters.others⟩
          exact filter_some_pos (registerIfFresh_snd.mpr fresh)
        · refine Or.inr ⟨?_, keeps_of_eq same tlsSeen⟩
          exact filter_some_neg (Bool.eq_false_iff.mpr (mt registerIfFresh_snd.mp stale))
  | connection buf nowMs nowSecs =>
    unfold accepted carried admitsNow step classifyFirstFrameAt
    dsimp only
    cases firstMessage deobfuscate obfKey buf with
    | none => exact Or.inr ⟨rfl, keeps_of_eq rfl rfl⟩
    | some message =>
      dsimp only [bind_some]
      rw [classifyMessage_fst]
      cases server.believedTls suite obfKey message nowSecs with
      | none => exact Or.inr ⟨rfl, keeps_of_eq rfl rfl⟩
      | some registration =>
        obtain ⟨node, counter⟩ := registration
        dsimp only [map_some]
        rcases server.registerIfFreshTls_cases node counter nowMs with ⟨fresh, taken⟩ | refused
        · refine Or.inl ⟨⟨.tls, node, counter⟩, filter_some_pos ?_, enters_tls fresh ?_⟩
          · rw [taken]
          · rw [taken]
            rfl
        · refine Or.inr ⟨filter_some_neg ?_, ?_⟩
          · rw [refused]
          · rw [refused]
            exact keeps_of_eq rfl rfl
  | sweep nowMs =>
    refine Or.inr ⟨rfl, ?_⟩
    rintro (_ | _) node last isLast
    · obtain ⟨reg, kept, rfl⟩ := map_eq_some_iff.mp isLast
      change (server.sweep nowMs).regs.lookup node = some reg at kept
      rw [lookup_sweep_regs] at kept
      rw [lastCounter, (filter_eq_some_iff.mp kept).1, map_some]
    · obtain ⟨seen, kept, rfl⟩ := map_eq_some_iff.mp isLast
      change (server.sweep nowMs).tlsSeen.lookup node = some seen at kept
      rw [lookup_sweep_tlsSeen] at kept
      rw [lastCounter, (filter_eq_some_iff.mp kept).1, map_some]

end Step

end RendezvousServer

/-! ### Runs -/

structure Audit where
  server : RendezvousServer
  accepted : List Registration

namespace Audit

section Runs

variable (suite : Suite) (deobfuscate : Bytes 16 → List Byte → Option (Byte × List Byte))
  (obfKey : Bytes 16)

def start (rootsCfg : Option (List (Bytes 32) × Bytes 16)) : Audit := ⟨⟨∅, ∅, ∅, 0, rootsCfg⟩, []⟩

def step (audit : Audit) (event : Event) : Audit :=
  ⟨audit.server.step suite deobfuscate obfKey event,
    (audit.server.accepted suite deobfuscate obfKey event).toList ++ audit.accepted⟩

/-- Where no live entry remembers a counter, none is shown again. -/
def Unrepeated (audit : Audit) (event : Event) : Prop :=
  ∀ registration ∈ audit.server.carried suite deobfuscate obfKey event,
    audit.server.liveCounter registration.path registration.node event.nowMs = none →
    ∀ earlier ∈ audit.accepted, earlier.path = registration.path →
      earlier.node = registration.node → earlier.counter < registration.counter

instance (audit : Audit) (event : Event) :
    Decidable (audit.Unrepeated suite deobfuscate obfKey event) := by
  unfold Unrepeated
  infer_instance

def Exceeds (later earlier : Registration) : Prop :=
  later.path = earlier.path → later.node = earlier.node → earlier.counter < later.counter

/-- For each node the counters accepted increase. -/
structure Increasing (audit : Audit) : Prop where
  sorted : audit.accepted.Pairwise Exceeds
  bounded : ∀ earlier ∈ audit.accepted, ∀ last,
    audit.server.lastCounter earlier.path earlier.node = some last → earlier.counter ≤ last

variable {suite deobfuscate obfKey}

theorem lastCounter_of_liveCounter {server : RendezvousServer} {path : Path} {node : NodeId}
    {nowMs last : Nat} (live : server.liveCounter path node nowMs = some last) :
    server.lastCounter path node = some last := by
  cases path with
  | udp =>
    obtain ⟨reg, isReg, rfl⟩ := map_eq_some_iff.mp live
    rw [RendezvousServer.lastCounter, (filter_eq_some_iff.mp isReg).1, map_some]
  | tls =>
    obtain ⟨seen, isSeen, rfl⟩ := map_eq_some_iff.mp live
    rw [RendezvousServer.lastCounter, (filter_eq_some_iff.mp isSeen).1, map_some]

theorem Increasing.step {audit : Audit} {event : Event} (increasing : Increasing audit)
    (unrepeated : audit.Unrepeated suite deobfuscate obfKey event) :
    Increasing (audit.step suite deobfuscate obfKey event) := by
  unfold Audit.step
  rcases audit.server.step_cases event with ⟨registration, accepted, enters⟩ | ⟨refused, keeps⟩
  · rw [accepted]
    have carried := (filter_eq_some_iff.mp accepted).1
    have above (earlier : Registration) (isEarlier : earlier ∈ audit.accepted)
        (path : earlier.path = registration.path) (node : earlier.node = registration.node) :
        earlier.counter < registration.counter := by
      cases live : audit.server.liveCounter registration.path registration.node event.nowMs with
      | none => exact unrepeated registration carried live earlier isEarlier path node
      | some last =>
        have entry := lastCounter_of_liveCounter live
        rw [← path, ← node] at entry
        exact (increasing.bounded earlier isEarlier last entry).trans_lt (enters.ahead last live)
    constructor
    · exact List.pairwise_cons.mpr ⟨fun earlier isEarlier path node =>
        above earlier isEarlier path.symm node.symm, increasing.sorted⟩
    · intro earlier isEarlier last isLast
      by_cases same : (earlier.path, earlier.node) = (registration.path, registration.node)
      · obtain ⟨path, node⟩ := Prod.mk.inj same
        rw [path, node, enters.entry] at isLast
        obtain rfl := some.inj isLast
        rcases List.mem_cons.mp isEarlier with rfl | before
        · exact le_rfl
        · exact (above earlier before path node).le
      · rw [enters.others _ _ same] at isLast
        rcases List.mem_cons.mp isEarlier with rfl | before
        · exact absurd rfl same
        · exact increasing.bounded earlier before last isLast
  · rw [refused]
    exact ⟨increasing.sorted, fun earlier isEarlier last isLast =>
      increasing.bounded earlier isEarlier last (keeps _ _ _ isLast)⟩

/-- In every run in which registrations that find no live entry are new, the counters accepted for
one node on one path increase, and nothing is accepted twice. -/
theorem counters_increase (rootsCfg : Option (List (Bytes 32) × Bytes 16)) (events : List Event)
    (admissible : Machine.Admissible (step suite deobfuscate obfKey)
      (fun audit event => audit.Unrepeated suite deobfuscate obfKey event) (start rootsCfg)
      events) :
    let reached := Machine.run (step suite deobfuscate obfKey) (start rootsCfg) events
    (reached.accepted.Pairwise fun later earlier =>
      later.path = earlier.path → later.node = earlier.node → earlier.counter < later.counter) ∧
    reached.accepted.Nodup := by
  have increasing := Machine.run_invariant (step suite deobfuscate obfKey) _ Increasing
    (fun _ _ increasing unrepeated => increasing.step unrepeated) (start rootsCfg) events
    ⟨List.Pairwise.nil, nofun⟩ admissible
  refine ⟨increasing.sorted, increasing.sorted.imp ?_⟩
  rintro later earlier exceeds rfl
  exact absurd (exceeds rfl rfl) (lt_irrefl _)

end Runs

open Transparent

def signed : Record := record (cert 2 9 2000) 2 1500000 1

def source (port : Nat) : Members.SocketAddr := addr port

def plain (_ : Bytes 16) (frame : List Byte) : Option (Byte × List Byte) :=
  some (RendezvousServer.rdvType, frame)

/-- A registration is refreshed, lapses, and is made again with a greater number. -/
theorem refreshed_counters_increase :
    let events := [.datagram (source 1) (.registerSigned signed) 0 1500,
      .datagram (source 1) (.registerSigned { signed with seq := 1520000 }) 20000 1520,
      .sweep 90000,
      .datagram (source 2) (.registerSigned { signed with seq := 1600000 }) 100000 1600]
    let reached := Machine.run (step suite plain (all 16 0)) (start (some ([all 32 9], all 16 0)))
      events
    reached.accepted.map (·.counter) = [1600000, 1520000, 1500000] ∧
    reached.accepted.Pairwise fun later earlier =>
      later.path = earlier.path → later.node = earlier.node → earlier.counter < later.counter := by
  intro events reached
  refine ⟨by decide +kernel, ?_⟩
  exact (counters_increase (some ([all 32 9], all 16 0)) events
    (show Machine.Admissible (step suite plain (all 16 0)) _ _ _ by decide +kernel)).1

/-- A recorded registration is played again from another source once the first one has expired. -/
theorem expired_registration_replayed :
    let reached := Machine.run (step suite plain (all 16 0)) (start (some ([all 32 9], all 16 0)))
      [.datagram (source 1) (.registerSigned signed) 0 1500,
        .datagram (source 2) (.registerSigned signed) 60000 1560]
    reached.accepted =
      [⟨.udp, signed.nodeId, 1500000⟩, ⟨.udp, signed.nodeId, 1500000⟩] ∧
    (reached.server.regs.lookup signed.nodeId).map (·.addr) = some (source 2) := by
  decide +kernel

end Audit

end Yip.Rdv
