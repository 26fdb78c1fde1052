/-
This file models the rendezvous server (`server.rs`) and the classifier of its TLS front
(`conn.rs`).
-/

import Yip.Rdv.Proto
import Yip.Lib.Assoc

namespace Yip.Rdv

open Crypto Members

def registrationSkewSecs : Nat := 300

def regTtlMs : Nat := 60000

def maxRegistrations : Nat := 65536

def maxRateEntries : Nat := 131072

def rateWindowMs : Nat := 1000

def maxMsgsPerWindow : Nat := 64

def saturatingMul (first second : Nat) : Nat := min (first * second) (u64Limit - 1)

structure Reg where
  addr : Members.SocketAddr
  expiryMs : Nat
  lastCounter : Nat
  record : Option Record
  deriving DecidableEq

structure Rate where
  windowStartMs : Nat
  count : Nat

structure TlsSeen where
  lastCounter : Nat
  expiryMs : Nat

/-- The tables of the rendezvous server. -/
structure RendezvousServer where
  regs : AList fun _ : NodeId => Reg
  rates : AList fun _ : Members.SocketAddr => Rate
  tlsSeen : AList fun _ : NodeId => TlsSeen
  forwarded : Nat
  rootsCfg : Option (List (Bytes 32) × Bytes 16)

def size {Key Value : Type} (table : AList fun _ : Key => Value) : Nat := table.entries.length

namespace RendezvousServer

def new : RendezvousServer := ⟨∅, ∅, ∅, 0, none⟩

def newWithRoots (caPubkeys : List (Bytes 32)) (networkId : Bytes 16) : RendezvousServer :=
  ⟨∅, ∅, ∅, 0, some (caPubkeys, networkId)⟩

/-! ### Registrations -/

variable (suite : Suite)

def inWindow (seq nowSecs : Nat) : Bool :=
  let nowWallMs := saturatingMul nowSecs 1000
  let skewMs := saturatingMul registrationSkewSecs 1000
  nowWallMs - saturatingAdd regTtlMs skewMs ≤ seq ∧ seq ≤ saturatingAdd nowWallMs skewMs

def verifySignedRecord (server : RendezvousServer) (record : Record) (nowSecs : Nat) : Bool :=
  match server.rootsCfg with
  | none => false
  | some (caPubkeys, networkId) =>
    record.verify suite caPubkeys networkId nowSecs registrationSkewSecs = some (.ok ()) ∧
      inWindow record.seq nowSecs

/-- Counts a message of the source, and whether it is within the limit. -/
def rateOk (server : RendezvousServer) (src : Members.SocketAddr) (nowMs : Nat) :
    RendezvousServer × Bool :=
  if size server.rates ≥ maxRateEntries ∧ src ∉ server.rates then (server, false)
  else
    let rate := (server.rates.lookup src).getD ⟨nowMs, 0⟩
    let rate := if nowMs - rate.windowStartMs ≥ rateWindowMs then ⟨nowMs, 0⟩ else rate
    if rate.count ≥ maxMsgsPerWindow then
      ({ server with rates := server.rates.insert src rate }, false)
    else
      ({ server with rates := server.rates.insert src { rate with count := rate.count + 1 } }, true)

def sweep (server : RendezvousServer) (nowMs : Nat) : RendezvousServer :=
  { server with
    regs := Assoc.retain (fun _ reg => nowMs < reg.expiryMs) server.regs
    rates := Assoc.retain (fun _ rate => nowMs - rate.windowStartMs < rateWindowMs) server.rates
    tlsSeen := Assoc.retain (fun _ seen => nowMs < seen.expiryMs) server.tlsSeen }

def liveReg (server : RendezvousServer) (node : NodeId) (nowMs : Nat) : Option Reg :=
  (server.regs.lookup node).filter fun reg => nowMs < reg.expiryMs

def liveSeen (server : RendezvousServer) (node : NodeId) (nowMs : Nat) : Option TlsSeen :=
  (server.tlsSeen.lookup node).filter fun seen => nowMs < seen.expiryMs

/-- Enters a registration whose counter is ahead of the live one. -/
def registerIfFresh (server : RendezvousServer) (node : NodeId) (counter : Nat)
    (src : Members.SocketAddr) (nowMs : Nat) : RendezvousServer × Bool :=
  if (server.liveReg node nowMs).any (counter ≤ ·.lastCounter) then (server, false)
  else if size server.regs ≥ maxRegistrations ∧ node ∉ server.regs then (server, false)
  else
    ({ server with
        regs := server.regs.insert node ⟨src, saturatingAdd nowMs regTtlMs, counter, none⟩ }, true)

def registerIfFreshTls (server : RendezvousServer) (node : NodeId) (counter nowMs : Nat) :
    RendezvousServer × Bool :=
  if (server.liveSeen node nowMs).any (counter ≤ ·.lastCounter) then (server, false)
  else
    ({ server with
        tlsSeen := server.tlsSeen.insert node ⟨counter, saturatingAdd nowMs regTtlMs⟩ }, true)

def keepRecord (server : RendezvousServer) (record : Record) : RendezvousServer :=
  match server.regs.lookup record.nodeId with
  | some reg =>
    { server with
      regs := server.regs.insert record.nodeId { reg with record := some record } }
  | none => server

/-! ### Datagrams -/

def answer (server : RendezvousServer) (src : Members.SocketAddr) (message : Message)
    (nowMs nowSecs : Nat) : RendezvousServer × List (Members.SocketAddr × Message) :=
  match message with
  | .register node counter =>
    if server.rootsCfg.isSome then (server, [])
    else ((server.registerIfFresh node counter src nowMs).1, [])
  | .registerSigned record =>
    if server.verifySignedRecord suite record nowSecs then
      let (server, fresh) := server.registerIfFresh record.nodeId record.seq src nowMs
      (if fresh then server.keepRecord record else server, [])
    else (server, [])
  | .lookup node =>
    match server.liveReg node nowMs with
    | some reg =>
      (server, [(src, .peerInfo node reg.addr reg.record), (reg.addr, .punchHint node src)])
    | none => (server, [(src, .notFound node)])
  | .relaySend sender dst payload =>
    match server.liveReg dst nowMs with
    | some reg =>
      ({ server with forwarded := server.forwarded + 1 },
        [(reg.addr, .relayDeliver sender payload)])
    | none => (server, [])
  | .registerAuth _ _ _ | .peerInfo _ _ _ | .notFound _ | .punchHint _ _ | .relayDeliver _ _ =>
    (server, [])

/-- A message from the socket: dropped over the limit, else answered. -/
def handle (server : RendezvousServer) (src : Members.SocketAddr) (message : Message)
    (nowMs nowSecs : Nat) : RendezvousServer × List (Members.SocketAddr × Message) :=
  let (server, ok) := server.rateOk src nowMs
  if ok then server.answer suite src message nowMs nowSecs else (server, [])

def rxBytes : Nat := 2048

def receive (server : RendezvousServer) (src : Members.SocketAddr) (datagram : List Byte)
    (nowMs nowSecs : Nat) : RendezvousServer × List (Members.SocketAddr × Message) :=
  match decode (datagram.take rxBytes) with
  | some message => server.handle suite src message nowMs nowSecs
  | none => (server, [])

/-! ### The TLS front -/

def tlsFrameCap : Nat := 2048

def rdvType : Byte := Byte.ofNat 5

inductive Classify where
  | upgrade (node : NodeId) (reply : Message)
  | decoy
  deriving DecidableEq

def firstMessage (deobfuscate : Bytes 16 → List Byte → Option (Byte × List Byte))
    (obfKey : Bytes 16) (buf : List Byte) : Option Message := do
  let (length, rest) ← takeUint 2 buf
  if length = 0 ∨ length > tlsFrameCap then none
  else
    let (frame, _) ← takeBytes length rest
    let (kind, body) ← deobfuscate obfKey frame.toList
    if kind = rdvType then decode body else none

/-- Whether a first message upgrades the connection. -/
def classifyMessage (server : RendezvousServer) (obfKey : Bytes 16) (message : Message)
    (nowMs nowSecs : Nat) : RendezvousServer × Classify :=
  match server.rootsCfg, message with
  | some _, .registerSigned record =>
    if server.verifySignedRecord suite record nowSecs then
      let (server, fresh) := server.registerIfFreshTls record.nodeId record.seq nowMs
      (server, if fresh then .upgrade record.nodeId (.registerSigned record) else .decoy)
    else (server, .decoy)
  | none, .registerAuth node counter mac =>
    if verifyRegisterMac suite obfKey node counter mac then
      let (server, fresh) := server.registerIfFreshTls node counter nowMs
      (server, if fresh then .upgrade node (.registerAuth node counter mac) else .decoy)
    else (server, .decoy)
  | _, _ => (server, .decoy)

def classifyFirstFrameAt (deobfuscate : Bytes 16 → List Byte → Option (Byte × List Byte))
    (server : RendezvousServer) (obfKey : Bytes 16) (buf : List Byte) (nowMs nowSecs : Nat) :
    RendezvousServer × Classify :=
  match firstMessage deobfuscate obfKey buf with
  | some message => server.classifyMessage suite obfKey message nowMs nowSecs
  | none => (server, .decoy)

/-! ### What is believed -/

/-- The node and counter of a registration that is genuine. -/
def believed (server : RendezvousServer) (message : Message) (nowSecs : Nat) :
    Option (NodeId × Nat) :=
  match message with
  | .register node counter => if server.rootsCfg.isSome then none else some (node, counter)
  | .registerSigned record =>
    if server.verifySignedRecord suite record nowSecs then some (record.nodeId, record.seq)
    else none
  | _ => none

def believedTls (server : RendezvousServer) (obfKey : Bytes 16) (message : Message)
    (nowSecs : Nat) : Option (NodeId × Nat) :=
  match server.rootsCfg, message with
  | some _, .registerSigned record =>
    if server.verifySignedRecord suite record nowSecs then some (record.nodeId, record.seq)
    else none
  | none, .registerAuth node counter mac =>
    if verifyRegisterMac suite obfKey node counter mac then some (node, counter) else none
  | _, _ => none

/-! ### What each function does to the tables -/

variable {suite} {server : RendezvousServer} {src : Members.SocketAddr} {node : NodeId}
  {counter nowMs nowSecs : Nat}

theorem rateOk_fst (server : RendezvousServer) (src : Members.SocketAddr) (nowMs : Nat) :
    ∃ rates, (server.rateOk src nowMs).1 = { server with rates := rates } := by
  unfold rateOk
  split
  · exact ⟨server.rates, rfl⟩
  · dsimp only
    generalize (if nowMs - ((server.rates.lookup src).getD ⟨nowMs, 0⟩).windowStartMs ≥ rateWindowMs
      then (⟨nowMs, 0⟩ : Rate) else (server.rates.lookup src).getD ⟨nowMs, 0⟩) = rate
    split
    · exact ⟨_, rfl⟩
    · exact ⟨_, rfl⟩

theorem not_stale_iff {Entry : Type} {last : Entry → Nat} {live : Option Entry} :
    ¬live.any (counter ≤ last ·) = true ↔ ∀ entry ∈ live, last entry < counter := by
  cases live with
  | none => simp
  | some entry => simp

def Fresh (server : RendezvousServer) (node : NodeId) (counter nowMs : Nat) : Prop :=
  (∀ reg ∈ server.liveReg node nowMs, reg.lastCounter < counter) ∧
    (size server.regs < maxRegistrations ∨ node ∈ server.regs)

theorem registerIfFresh_cases (server : RendezvousServer) (node : NodeId) (counter : Nat)
    (src : Members.SocketAddr) (nowMs : Nat) :
    (server.Fresh node counter nowMs ∧ server.registerIfFresh node counter src nowMs =
      ({ server with
          regs := server.regs.insert node ⟨src, saturatingAdd nowMs regTtlMs, counter, none⟩ },
        true)) ∨
    (¬server.Fresh node counter nowMs ∧
      server.registerIfFresh node counter src nowMs = (server, false)) := by
  unfold registerIfFresh Fresh
  by_cases ahead : ∀ reg ∈ server.liveReg node nowMs, reg.lastCounter < counter
  · rw [if_neg (not_stale_iff.mpr ahead)]
    by_cases full : size server.regs ≥ maxRegistrations ∧ node ∉ server.regs
    · refine Or.inr ⟨fun fresh => ?_, if_pos full⟩
      exact fresh.2.elim (not_lt.mpr full.1) full.2
    · refine Or.inl ⟨⟨ahead, ?_⟩, if_neg full⟩
      by_cases known : node ∈ server.regs
      · exact Or.inr known
      · exact Or.inl (not_le.mp fun large => full ⟨large, known⟩)
  · exact Or.inr ⟨fun fresh => ahead fresh.1, if_pos (not_not.mp (mt not_stale_iff.mp ahead))⟩

theorem registerIfFresh_snd :
    (server.registerIfFresh node counter src nowMs).2 = true ↔ server.Fresh node counter nowMs := by
  rcases server.registerIfFresh_cases node counter src nowMs with ⟨fresh, taken⟩ | ⟨stale, refused⟩
  · rw [taken]
    exact iff_of_true rfl fresh
  · rw [refused]
    exact iff_of_false Bool.false_ne_true stale

theorem registerIfFreshTls_cases (server : RendezvousServer) (node : NodeId) (counter nowMs : Nat) :
    ((∀ seen ∈ server.liveSeen node nowMs, seen.lastCounter < counter) ∧
      server.registerIfFreshTls node counter nowMs =
        ({ server with
            tlsSeen := server.tlsSeen.insert node ⟨counter, saturatingAdd nowMs regTtlMs⟩ },
          true)) ∨
    server.registerIfFreshTls node counter nowMs = (server, false) := by
  unfold registerIfFreshTls
  by_cases ahead : ∀ seen ∈ server.liveSeen node nowMs, seen.lastCounter < counter
  · exact Or.inl ⟨ahead, if_neg (not_stale_iff.mpr ahead)⟩
  · exact Or.inr (if_pos (not_not.mp (mt not_stale_iff.mp ahead)))

theorem keepRecord_insert {record : Record} {reg : Reg} :
    ({ server with regs := server.regs.insert record.nodeId reg }.keepRecord record) =
      { server with
        regs := server.regs.insert record.nodeId { reg with record := some record } } := by
  unfold keepRecord
  rw [AList.lookup_insert]
  dsimp only
  rw [AList.insert_insert]

structure Registers (server after : RendezvousServer) (node : NodeId) (counter : Nat)
    (src : Members.SocketAddr) (nowMs : Nat) : Prop where
  entry : ∃ record, after.regs.lookup node =
    some ⟨src, saturatingAdd nowMs regTtlMs, counter, record⟩
  others : ∀ other, other ≠ node → after.regs.lookup other = server.regs.lookup other

theorem answer_cases (suite : Suite) (server : RendezvousServer) (src : Members.SocketAddr)
    (message : Message) (nowMs nowSecs : Nat) :
    (∃ node counter record, server.believed suite message nowSecs = some (node, counter) ∧
      server.Fresh node counter nowMs ∧
      (server.answer suite src message nowMs nowSecs).1 =
        { server with
          regs := server.regs.insert node
            ⟨src, saturatingAdd nowMs regTtlMs, counter, record⟩ }) ∨
    ((∀ node counter, server.believed suite message nowSecs = some (node, counter) →
        ¬server.Fresh node counter nowMs) ∧
      ∃ forwarded, (server.answer suite src message nowMs nowSecs).1 =
        { server with forwarded := forwarded }) := by
  have nothing : ∀ node counter, (none : Option (NodeId × Nat)) = some (node, counter) →
      ¬server.Fresh node counter nowMs := by
    intro _ _ impossible
    cases impossible
  unfold answer believed
  cases message with
  | register node counter =>
    dsimp only
    split
    · exact Or.inr ⟨nothing, server.forwarded, rfl⟩
    rcases server.registerIfFresh_cases node counter src nowMs with
      ⟨fresh, taken⟩ | ⟨stale, refused⟩
    · exact Or.inl ⟨node, counter, none, rfl, fresh, by rw [taken]⟩
    · refine Or.inr ⟨?_, server.forwarded, by rw [refused]⟩
      rintro _ _ ⟨⟩
      exact stale
  | registerSigned record =>
    dsimp only
    split
    · rcases server.registerIfFresh_cases record.nodeId record.seq src nowMs with
        ⟨fresh, taken⟩ | ⟨stale, refused⟩
      · refine Or.inl ⟨record.nodeId, record.seq, some record, rfl, fresh, ?_⟩
        rw [taken]
        exact keepRecord_insert
      · refine Or.inr ⟨?_, server.forwarded, by rw [refused]; rfl⟩
        rintro _ _ ⟨⟩
        exact stale
    · exact Or.inr ⟨nothing, server.forwarded, rfl⟩
  | lookup node =>
    dsimp only
    split <;> exact Or.inr ⟨nothing, server.forwarded, rfl⟩
  | relaySend sender dst payload =>
    dsimp only
    split <;> exact Or.inr ⟨nothing, _, rfl⟩
  | registerAuth node counter mac => exact Or.inr ⟨nothing, server.forwarded, rfl⟩
  | peerInfo node reflexive record => exact Or.inr ⟨nothing, server.forwarded, rfl⟩
  | notFound node => exact Or.inr ⟨nothing, server.forwarded, rfl⟩
  | punchHint node reflexive => exact Or.inr ⟨nothing, server.forwarded, rfl⟩
  | relayDeliver sender payload => exact Or.inr ⟨nothing, server.forwarded, rfl⟩

theorem answer_tlsSeen (suite : Suite) (server : RendezvousServer) (src : Members.SocketAddr)
    (message : Message) (nowMs nowSecs : Nat) :
    (server.answer suite src message nowMs nowSecs).1.tlsSeen = server.tlsSeen := by
  rcases server.answer_cases suite src message nowMs nowSecs with
    ⟨_, _, _, -, -, entered⟩ | ⟨-, _, unchanged⟩
  · rw [entered]
  · rw [unchanged]

variable {message : Message}

theorem answer_of_not_believed (ignored : server.believed suite message nowSecs = none) :
    (server.answer suite src message nowMs nowSecs).1.regs = server.regs := by
  rcases server.answer_cases suite src message nowMs nowSecs with
    ⟨_, _, _, isBelieved, -, -⟩ | ⟨-, _, unchanged⟩
  · rw [ignored] at isBelieved
    cases isBelieved
  · rw [unchanged]

theorem answer_of_believed
    (isBelieved : server.believed suite message nowSecs = some (node, counter)) :
    (server.Fresh node counter nowMs ∧ Registers server
      (server.answer suite src message nowMs nowSecs).1 node counter src nowMs) ∨
    (¬server.Fresh node counter nowMs ∧
      (server.answer suite src message nowMs nowSecs).1.regs = server.regs) := by
  rcases server.answer_cases suite src message nowMs nowSecs with
    ⟨named, number, record, same, fresh, entered⟩ | ⟨stale, _, unchanged⟩
  · obtain ⟨rfl, rfl⟩ := Prod.mk.inj (Option.some.inj (same.symm.trans isBelieved))
    rw [entered]
    exact Or.inl ⟨fresh, ⟨record, AList.lookup_insert _⟩,
      fun other different => AList.lookup_insert_ne different⟩
  · rw [unchanged]
    exact Or.inr ⟨stale node counter isBelieved, rfl⟩

theorem classifyMessage_fst {obfKey : Bytes 16} :
    (server.classifyMessage suite obfKey message nowMs nowSecs).1 =
      match server.believedTls suite obfKey message nowSecs with
      | some (node, counter) => (server.registerIfFreshTls node counter nowMs).1
      | none => server := by
  unfold classifyMessage believedTls
  split
  · split <;> rfl
  · split <;> rfl
  · rfl

theorem of_classifyMessage_upgrade {obfKey : Bytes 16} {message reply : Message}
    (upgraded : (server.classifyMessage suite obfKey message nowMs nowSecs).2 =
      .upgrade node reply) :
    reply = message ∧ (server.believedTls suite obfKey message nowSecs).isSome := by
  unfold classifyMessage at upgraded
  unfold believedTls
  split at upgraded
  · split at upgraded
    · rename_i verified
      dsimp only at upgraded
      split at upgraded
      · obtain ⟨-, rfl⟩ := Classify.upgrade.inj upgraded
        rw [if_pos verified]
        exact ⟨rfl, rfl⟩
      · cases upgraded
    · cases upgraded
  · split at upgraded
    · rename_i verified
      dsimp only at upgraded
      split at upgraded
      · obtain ⟨-, rfl⟩ := Classify.upgrade.inj upgraded
        rw [if_pos verified]
        exact ⟨rfl, rfl⟩
      · cases upgraded
    · cases upgraded
  · cases upgraded

theorem lookup_sweep_regs : (server.sweep nowMs).regs.lookup node = server.liveReg node nowMs :=
  Assoc.lookup_retain _ _ _

theorem lookup_sweep_tlsSeen :
    (server.sweep nowMs).tlsSeen.lookup node = server.liveSeen node nowMs :=
  Assoc.lookup_retain _ _ _

end RendezvousServer

end Yip.Rdv
