/-
This file models the coalescer (`tun_offload.rs`), which joins packets of one TCP flow to a
super-packet for the TUN device.
-/

import Yip.Io.TunOffload
import Yip.Lib.Machine

namespace Yip.Io

open ArrayList InternetChecksum List

def gsoTcpv4 : Nat := 1

def maxGsoSegments : Nat := 64

def maxGsoPayload : Nat := 65535

def sealingFlags : Nat := 0x2d

def u16OrZero (value : Nat) : Nat := if value < 65536 then value else 0

def writeVnetHdr (h : VirtioNetHdr) : List Byte :=
  [h.flags, h.gsoType, h.hdrLen, h.hdrLen / 256, h.gsoSize, h.gsoSize / 256, h.csumStart,
    h.csumStart / 256, h.csumOffset, h.csumOffset / 256].map Byte.ofNat

/-- The run of segments that is being joined. -/
structure Coalescer where
  pending : List Byte
  hasPending : Bool
  isTcpRun : Bool
  isSealed : Bool
  key : FlowKey
  nextSeq : Nat
  gsoSize : Nat
  ipHdrLen : Nat
  l3HdrLen : Nat
  segs : Nat

namespace Coalescer

def new : Coalescer := ⟨[], false, false, false, ⟨0, 0, 0, 0⟩, 0, 0, 0, 0, 0⟩

def tcpFrame (c : Coalescer) : List Byte :=
  let l3 := c.pending.drop vnetHdrLen
  let l3 := copyInto l3 2 (toBeBytes 2 (min l3.length 65535))
  writeVnetHdr ⟨fNeedsCsum, gsoTcpv4, u16OrZero c.l3HdrLen, c.gsoSize, u16OrZero c.ipHdrLen, 16⟩ ++
    (ipv4Checksum (l3.take c.ipHdrLen) ++ l3.drop c.ipHdrLen)

def takePending (c : Coalescer) : Option (List Byte) × Coalescer :=
  if c.hasPending then
    (some (if c.isTcpRun then c.tcpFrame else c.pending),
      { c with pending := [], hasPending := false })
  else (none, c)

def startTcpRun (c : Coalescer) (x : Ipv4Tcp) : Coalescer :=
  { c with
    pending := List.replicate vnetHdrLen 0 ++ x.bytes.take x.totalLen
    hasPending := true
    isTcpRun := true
    isSealed := x.flags &&& sealingFlags ≠ 0
    key := x.key
    ipHdrLen := x.ipHdrLen
    l3HdrLen := x.payloadOff
    gsoSize := u16OrZero x.payloadLen
    nextSeq := (x.seq + x.payloadLen) % 2 ^ 32
    segs := 1 }

def startSingleton (c : Coalescer) (pkt : List Byte) : Coalescer :=
  { c with
    pending := writeVnetHdr ⟨0, gsoNone, 0, 0, 0, 0⟩ ++ pkt
    hasPending := true
    isTcpRun := false
    isSealed := true }

def Continues (c : Coalescer) (x : Ipv4Tcp) : Prop :=
  c.hasPending = true ∧ c.isTcpRun = true ∧ c.isSealed = false ∧ 0 < x.payloadLen ∧
    x.flags &&& sealingFlags = 0 ∧ x.key = c.key ∧ x.seq = c.nextSeq ∧
    x.payloadOff = c.l3HdrLen ∧ c.segs < maxGsoSegments ∧
    c.pending.length - vnetHdrLen - c.l3HdrLen + x.payloadLen ≤ maxGsoPayload

instance (c : Coalescer) (x : Ipv4Tcp) : Decidable (c.Continues x) :=
  inferInstanceAs (Decidable (_ ∧ _))

def extend (c : Coalescer) (x : Ipv4Tcp) : Coalescer :=
  { c with
    pending := c.pending ++ x.payload
    nextSeq := (c.nextSeq + x.payloadLen) % 2 ^ 32
    segs := c.segs + 1 }

def start (c : Coalescer) (pkt : List Byte) : Coalescer :=
  match parseIpv4Tcp pkt with
  | some x => if 0 < x.payloadLen then c.startTcpRun x else c.startSingleton pkt
  | none => c.startSingleton pkt

/-- Takes a packet; hands out what it does not continue. -/
def push (c : Coalescer) (pkt : List Byte) : Option (List Byte) × Coalescer :=
  match (parseIpv4Tcp pkt).filter (c.Continues ·) with
  | some x => (none, c.extend x)
  | none => (c.takePending.1, c.takePending.2.start pkt)

def flush (c : Coalescer) : Option (List Byte) × Coalescer := c.takePending

def feed (c : Coalescer) (group : List (List Byte)) :
    List (List Byte) → List (List Byte × List (List Byte))
  | [] => (c.flush.1.map (·, group)).toList
  | pkt :: rest =>
    match c.push pkt with
    | (none, c) => c.feed (group ++ [pkt]) rest
    | (some frame, c) => (frame, group) :: c.feed [pkt] rest

end Coalescer

/-! ### What is compared -/

def Ipv4Tcp.template (x : Ipv4Tcp) : List (List Byte) :=
  [slice x.bytes 0 2, slice x.bytes 6 4, slice x.bytes 12 (x.ipHdrLen - 8),
    slice x.bytes (x.ipHdrLen + 8) 8,
    slice x.bytes (x.ipHdrLen + 18) (x.payloadOff - (x.ipHdrLen + 18))]

/-- What a packet says, but for the fields that splitting writes anew. -/
inductive Essence where
  | tcp (template : List (List Byte)) (totalLen seq : Nat) (payload : List Byte)
  | other (bytes : List Byte)
  deriving DecidableEq

def essence (pkt : List Byte) : Essence :=
  match parseIpv4Tcp pkt with
  | some x => .tcp x.template x.totalLen x.seq x.payload
  | none => .other pkt

def Essence.payload : Essence → List Byte
  | tcp _ _ _ payload => payload
  | other _ => []

def Measured (pkt : List Byte) : Prop := be pkt 0 1 / 16 = 4 → be pkt 2 2 = pkt.length

instance (pkt : List Byte) : Decidable (Measured pkt) := inferInstanceAs (Decidable (_ → _))

def Uniform (xs : List Ipv4Tcp) : Prop :=
  ∀ x ∈ xs.head?, (∀ y ∈ xs, y.template = x.template ∧ y.payloadLen ≤ x.payloadLen) ∧
    (∀ y ∈ xs.dropLast, y.payloadLen = x.payloadLen) ∧
    x.payloadOff + (xs.map Ipv4Tcp.payloadLen).sum ≤ 65535

/-- A packet that is joined has the header of the run, follows full segments only, is no longer
than they are and leaves the frame within 65535 bytes. -/
def Coalescer.Alike (c : Coalescer) (pkt : List Byte) : Prop :=
  ∀ y ∈ parseIpv4Tcp pkt, c.Continues y →
    (∀ z ∈ parseIpv4Tcp (c.pending.drop vnetHdrLen), y.template = z.template) ∧
      y.payloadLen ≤ c.gsoSize ∧
      (c.pending.length - vnetHdrLen - c.l3HdrLen) % c.gsoSize = 0 ∧
      c.pending.length - vnetHdrLen + y.payloadLen ≤ 65535

instance (c : Coalescer) (pkt : List Byte) : Decidable (c.Alike pkt) :=
  inferInstanceAs (Decidable (∀ y ∈ parseIpv4Tcp pkt, _ → _))

namespace Ipv4Tcp

def vnetHdr (x : Ipv4Tcp) : VirtioNetHdr :=
  ⟨fNeedsCsum, gsoTcpv4, u16OrZero x.payloadOff, x.payloadLen, u16OrZero x.ipHdrLen, 16⟩

variable (x : Ipv4Tcp)

theorem length_payload : x.payload.length = x.payloadLen := by
  have := x.bounds
  refine length_slice _ _ _ ?_
  unfold payloadLen
  omega

theorem totalLen_eq : x.totalLen = x.payloadOff + x.payloadLen := by
  have := x.bounds
  unfold payloadLen
  omega

theorem take_totalLen : x.bytes.take x.totalLen = x.bare x.payload := by
  rw [totalLen_eq, take_add, bare, payload, slice]

variable {x}

section Header

variable {z : Ipv4Tcp} (header : x.HeaderOf z.bytes)

include header

theorem HeaderOf.payloadOff_eq : z.payloadOff = x.payloadOff := by
  rw [payloadOff, ipHdrLen, header.ihl_eq, header.dataOff_eq, payloadOff]

theorem HeaderOf.template_eq : z.template = x.template := by
  have := x.bounds
  have same : z.ipHdrLen = x.ipHdrLen := header.ihl_eq
  have kept := header.same
  simp only [Apart] at kept
  rw [template, same, header.payloadOff_eq, kept 0 2, kept 6 4, kept 12, kept (x.ipHdrLen + 8),
    kept (x.ipHdrLen + 18), template] <;> omega

end Header

theorem essence_segment {seq ipId : Nat} {chunk : List Byte}
    (fits : x.payloadOff + chunk.length < 65536) (small : seq < 2 ^ 32) :
    essence (x.segment seq ipId chunk) =
      .tcp x.template (x.payloadOff + chunk.length) seq chunk := by
  have header := x.headerOf_segment seq ipId chunk fits
  have total := x.be_segment_totalLen seq ipId chunk fits
  have number := x.be_segment_seq seq ipId chunk small
  have rest := x.drop_segment seq ipId chunk
  obtain ⟨z, isSegment⟩ : ∃ z : Ipv4Tcp, z.bytes = x.segment seq ipId chunk :=
    ⟨⟨_, header.accepted⟩, rfl⟩
  rw [← isSegment] at header total number rest ⊢
  have parsed : parseIpv4Tcp z.bytes = some z := dif_pos z.accepted
  have same : z.ipHdrLen = x.ipHdrLen := header.ihl_eq
  have payload : z.payload = chunk := by
    rw [Ipv4Tcp.payload, slice, header.payloadOff_eq, rest, payloadLen, totalLen, total,
      header.payloadOff_eq, Nat.add_sub_cancel_left, take_length]
  rw [essence, parsed]
  simp only [header.template_eq, totalLen, total, Ipv4Tcp.seq, same, number, payload]

end Ipv4Tcp

theorem readVnetHdr_writeVnetHdr {h : VirtioNetHdr} (body : List Byte)
    (bytes : h.flags < 256 ∧ h.gsoType < 256)
    (words : h.hdrLen < 65536 ∧ h.gsoSize < 65536 ∧ h.csumStart < 65536 ∧ h.csumOffset < 65536) :
    readVnetHdr (writeVnetHdr h ++ body) = some h := by
  have long : ¬ (writeVnetHdr h ++ body).length < vnetHdrLen := by
    simp [writeVnetHdr, vnetHdrLen]
  obtain ⟨flags, gsoType, hdrLen, gsoSize, csumStart, csumOffset⟩ := h
  rw [readVnetHdr, if_neg long, Option.some.injEq, VirtioNetHdr.mk.injEq]
  simp only [writeVnetHdr, ne16, be, slice, map_cons, map_nil, cons_append,
    nil_append, drop_succ_cons, drop_zero, take_succ_cons, take_zero,
    ofBeBytes, foldl_cons, foldl_nil, Byte.toNat_ofNat, Nat.reduceAdd]
  dsimp only at bytes words
  omega

/-! ### Runs -/

def payloads (xs : List Ipv4Tcp) : List Byte := (xs.map Ipv4Tcp.payload).flatten

theorem length_payloads (xs : List Ipv4Tcp) :
    (payloads xs).length = (xs.map Ipv4Tcp.payloadLen).sum := by
  rw [payloads, length_flatten, map_map]
  exact congrArg (fun lengths => sum (map lengths xs)) (funext Ipv4Tcp.length_payload)

structure Joined (x : Ipv4Tcp) (xs : List Ipv4Tcp) : Prop where
  some : ∀ y ∈ xs, 0 < y.payloadLen ∧ y.payloadOff = x.payloadOff
  seq : ∀ (i : Nat) y, xs[i]? = .some y →
    y.seq = (x.seq + (payloads (xs.take i)).length) % 2 ^ 32

structure Super (x : Ipv4Tcp) (all : List Byte) (z : Ipv4Tcp) : Prop where
  header : x.HeaderOf z.bytes
  seq : z.seq = x.seq
  totalLen : z.totalLen = min (x.payloadOff + all.length) 65535
  length : z.bytes.length = x.payloadOff + all.length
  payload : z.payload = all.take (z.totalLen - x.payloadOff)

theorem exists_super (x : Ipv4Tcp) (all : List Byte) (ck : Nat) : ∃ z, Super x all z ∧
    z.bytes = patch (x.bare all) [(2, toBeBytes 2 (min (x.bare all).length 65535)),
      (10, toBeBytes 2 0), (10, toBeBytes 2 ck)] := by
  have := x.bounds
  have length := x.length_bare all
  have inside : ∀ patch ∈ [(2, toBeBytes 2 (min (x.bare all).length 65535)),
      (10, toBeBytes 2 0), (10, toBeBytes 2 ck)],
      patch.1 + patch.2.length ≤ (x.bare all).length := by
    simp only [forall_mem_cons, length_toBeBytes, not_mem_nil, false_imp_iff,
      implies_true, and_true]
    omega
  have total : ofBeBytes (toBeBytes 2 (min (x.bare all).length 65535)) =
      min (x.payloadOff + all.length) 65535 := by
    rw [ofBeBytes_toBeBytes, length]
    omega
  generalize isBody : patch (x.bare all) [(2, toBeBytes 2 (min (x.bare all).length 65535)),
    (10, toBeBytes 2 0), (10, toBeBytes 2 ck)] = body
  have slices (start len : Nat) (apart : start + len ≤ 2 ∨ 4 ≤ start ∧ start + len ≤ 10 ∨
      12 ≤ start) : slice body start len = slice (x.bare all) start len := by
    rw [← isBody]
    refine slice_patch inside ?_
    simp only [forall_mem_cons, length_toBeBytes, not_mem_nil, false_imp_iff,
      implies_true, and_true]
    omega
  have written : be body 2 2 = min (x.payloadOff + all.length) 65535 := by
    have there := @slice_patch_self _ _ _ _ [] [(10, toBeBytes 2 0), (10, toBeBytes 2 ck)] _
      (length_toBeBytes ..) inside (by simp)
    rw [nil_append, isBody] at there
    rw [be, there, total]
  have size : body.length = x.payloadOff + all.length := by
    rw [← isBody, length_patch inside, length]
  have header : x.HeaderOf body := by
    refine ⟨fun start len within apart => ?_, by omega, by omega⟩
    unfold Ipv4Tcp.Apart at apart
    rw [slices start len (by omega), x.slice_bare all within]
  refine ⟨⟨body, header.accepted⟩, ⟨header, ?_, written, size, ?_⟩, rfl⟩
  · show be body (ihl body + 4) 4 = be x.bytes (x.ipHdrLen + 4) 4
    rw [header.ihl_eq, be, slices _ _ (by omega), x.slice_bare all (by omega), be]
  · have front : (x.bytes.take x.payloadOff).length = x.payloadOff := by
      rw [length_take, min_eq_left (by omega)]
    have offset : Ipv4Tcp.payloadOff ⟨body, header.accepted⟩ = x.payloadOff :=
      header.payloadOff_eq
    rw [Ipv4Tcp.payload, Ipv4Tcp.payloadLen, offset, slices _ _ (by omega), slice,
      Ipv4Tcp.bare, drop_left' front]

namespace Coalescer

structure Run (c : Coalescer) (x : Ipv4Tcp) (rest : List Ipv4Tcp) : Prop where
  tcp : c.hasPending = true ∧ c.isTcpRun = true
  pending : c.pending = List.replicate vnetHdrLen 0 ++ x.bare (payloads (x :: rest))
  lengths : c.ipHdrLen = x.ipHdrLen ∧ c.l3HdrLen = x.payloadOff ∧ c.gsoSize = x.payloadLen
  nextSeq : c.nextSeq = (x.seq + (payloads (x :: rest)).length) % 2 ^ 32
  joined : Joined x (x :: rest)

variable {c : Coalescer} {x : Ipv4Tcp} {rest : List Ipv4Tcp}

theorem Run.tcpFrame_eq (run : c.Run x rest) : ∃ z, Super x (payloads (x :: rest)) z ∧
    c.tcpFrame = writeVnetHdr x.vnetHdr ++ z.bytes := by
  have := x.bounds
  obtain ⟨ipHdrLen, l3HdrLen, gsoSize⟩ := run.lengths
  have drop : c.pending.drop vnetHdrLen = x.bare (payloads (x :: rest)) := by
    rw [run.pending, drop_left' length_replicate]
  have length := x.length_bare (payloads (x :: rest))
  obtain ⟨ck, checked⟩ := exists_ipv4Checksum (by omega : 12 ≤ x.ipHdrLen)
    (by rw [length_copyInto _ _ _ (by rw [length_toBeBytes]; omega)]; omega : _ ≤ (copyInto
      (x.bare (payloads (x :: rest))) 2
      (toBeBytes 2 (min (x.bare (payloads (x :: rest))).length 65535))).length)
  obtain ⟨z, isSuper, bytes⟩ := exists_super x (payloads (x :: rest)) ck
  refine ⟨z, isSuper, ?_⟩
  rw [tcpFrame, drop, ipHdrLen, l3HdrLen, gsoSize, checked, bytes]
  rfl

end Coalescer

/-! ### What splitting gives back -/

theorem splitGro_alone (pkt : List Byte) :
    splitGro (writeVnetHdr ⟨0, gsoNone, 0, 0, 0, 0⟩ ++ pkt) = some [pkt] := by
  have read := @readVnetHdr_writeVnetHdr ⟨0, gsoNone, 0, 0, 0, 0⟩ pkt (by decide) (by decide)
  simp only [splitGro, read, Option.bind_eq_bind, Option.bind_some]
  rfl

def Ipv4Tcp.segmentEssences (x : Ipv4Tcp) (payload : List Byte) : List Essence :=
  (Chunking.chunks x.payloadLen payload).mapIdx fun i chunk =>
    .tcp x.template (x.payloadOff + chunk.length) ((x.seq + i * x.payloadLen) % 2 ^ 32) chunk

def Ipv4Tcp.essence (x : Ipv4Tcp) : Essence := .tcp x.template x.totalLen x.seq x.payload

theorem essence_bytes (x : Ipv4Tcp) : essence x.bytes = x.essence := by
  have parsed : parseIpv4Tcp x.bytes = some x := dif_pos x.accepted
  rw [essence, parsed, Ipv4Tcp.essence]

theorem splitGro_super {x z : Ipv4Tcp} {all : List Byte} (isSuper : Super x all z)
    (some : 0 < x.payloadLen) : ∃ segments,
      splitGro (writeVnetHdr x.vnetHdr ++ z.bytes) = .some segments ∧
        segments.map Io.essence = x.segmentEssences z.payload := by
  have := x.bounds
  have read : readVnetHdr (writeVnetHdr x.vnetHdr ++ z.bytes) = .some x.vnetHdr := by
    have small (value : Nat) : u16OrZero value < 65536 := by
      unfold u16OrZero
      split <;> omega
    refine readVnetHdr_writeVnetHdr _
      ⟨show fNeedsCsum < 256 by decide, show gsoTcpv4 < 256 by decide⟩
      ⟨small _, ?_, small _, show 16 < 65536 by decide⟩
    simp only [Ipv4Tcp.vnetHdr, Ipv4Tcp.payloadLen]
    omega
  have parsed : parseIpv4Tcp ((writeVnetHdr x.vnetHdr ++ z.bytes).drop vnetHdrLen) = .some z := by
    rw [drop_left' (by rfl)]
    exact dif_pos z.accepted
  have gso : ¬ (x.vnetHdr.gsoType = gsoNone ∨ x.vnetHdr.gsoSize = 0) :=
    not_or.mpr ⟨Nat.one_ne_zero, Nat.ne_of_gt some⟩
  refine ⟨z.splitFrom x.payloadLen z.seq (be ((writeVnetHdr x.vnetHdr ++ z.bytes).drop
    vnetHdrLen) 4 2) z.payload, ?_, ?_⟩
  · simp only [splitGro, read, parsed, Option.bind_eq_bind, Option.bind_some]
    rw [if_neg gso]
    rfl
  · rw [z.splitFrom_eq (be_lt ..) (be_lt ..), Ipv4Tcp.segmentEssences]
    refine ext_getElem? fun i => ?_
    rw [getElem?_map, getElem?_mapIdx, getElem?_mapIdx, Option.map_map]
    refine Option.map_congr fun chunk found => ?_
    have within := (Chunking.length_of_mem_chunks (mem_of_getElem? found)).2.1
    have length := z.length_payload
    have bounds := z.bounds
    rw [Ipv4Tcp.payloadLen] at length
    rw [Function.comp_apply, z.essence_segment (by omega) (Nat.mod_lt _ (by decide)),
      isSuper.header.template_eq, isSuper.header.payloadOff_eq, isSuper.seq]

section Lossless

variable {x : Ipv4Tcp} {xs : List Ipv4Tcp}

theorem Joined.segmentEssences_eq_iff (joined : Joined x xs) (some : 0 < x.payloadLen) :
    x.segmentEssences (payloads xs) = xs.map Ipv4Tcp.essence ↔
      (∀ y ∈ xs, y.template = x.template ∧ y.payloadLen ≤ x.payloadLen) ∧
        ∀ y ∈ xs.dropLast, y.payloadLen = x.payloadLen := by
  have nonempty : ∀ piece ∈ xs.map Ipv4Tcp.payload, piece ≠ [] :=
    forall_mem_map.mpr fun y there =>
      ne_nil_of_length_pos (y.length_payload ▸ (joined.some y there).1)
  have pieces : Chunking.chunks x.payloadLen (payloads xs) = xs.map Ipv4Tcp.payload ↔
      (∀ y ∈ xs, y.payloadLen ≤ x.payloadLen) ∧ ∀ y ∈ xs.dropLast, y.payloadLen = x.payloadLen := by
    rw [payloads, Chunking.chunks_flatten_iff some _ nonempty, ← map_dropLast]
    simp only [forall_mem_map, Ipv4Tcp.length_payload]
  constructor
  · intro same
    have entries (i : Nat) := congrArg (·[i]?) same
    simp only [Ipv4Tcp.segmentEssences, getElem?_mapIdx, getElem?_map] at entries
    have chunked : Chunking.chunks x.payloadLen (payloads xs) = xs.map Ipv4Tcp.payload := by
      refine ext_getElem? fun i => ?_
      have entry := congrArg (Option.map Essence.payload) (entries i)
      simp only [Option.map_map, Function.comp_def, Essence.payload, Ipv4Tcp.essence,
        Option.map_id'] at entry
      rw [entry, getElem?_map]
    obtain ⟨short, whole⟩ := pieces.mp chunked
    refine ⟨fun y member => ⟨?_, short y member⟩, whole⟩
    obtain ⟨i, found⟩ := mem_iff_getElem?.mp member
    have entry := entries i
    rw [chunked, getElem?_map, found, Option.map_some, Option.map_some, Option.map_some,
      Option.some.injEq, Ipv4Tcp.essence, Essence.tcp.injEq] at entry
    exact entry.1.symm
  · rintro ⟨each, whole⟩
    have chunked := pieces.mpr ⟨fun y member => (each y member).2, whole⟩
    refine ext_getElem? fun i => ?_
    rw [Ipv4Tcp.segmentEssences, chunked, getElem?_mapIdx, getElem?_map,
      getElem?_map, Option.map_map]
    refine Option.map_congr fun y found => ?_
    have member := mem_of_getElem? found
    have early : i < (Chunking.chunks x.payloadLen (payloads xs)).length := by
      rw [chunked, length_map]
      exact (List.getElem?_eq_some_iff.mp found).1
    have before : (payloads (xs.take i)).length = i * x.payloadLen := by
      rw [payloads, map_take, ← chunked, Chunking.length_flatten_take_chunks early]
    rw [Function.comp_apply, Ipv4Tcp.essence, y.totalLen_eq, (joined.some y member).2,
      (each y member).1, joined.seq i y found, before, y.length_payload]

theorem Super.measured_iff {all : List Byte} {z : Ipv4Tcp} (isSuper : Super x all z) :
    Measured z.bytes ↔ x.payloadOff + all.length ≤ 65535 := by
  have version : be z.bytes 0 1 / 16 = 4 := z.accepted.2.1
  have total : be z.bytes 2 2 = _ := isSuper.totalLen
  rw [Measured, forall_prop_of_true version, total, isSuper.length]
  omega

inductive Sent : List Byte → List (List Byte) → Prop
  | alone (pkt : List Byte) : Sent (writeVnetHdr ⟨0, gsoNone, 0, 0, 0, 0⟩ ++ pkt) [pkt]
  | run {x z : Ipv4Tcp} {rest : List Ipv4Tcp} (joined : Joined x (x :: rest))
      (isSuper : Super x (payloads (x :: rest)) z) :
      Sent (writeVnetHdr x.vnetHdr ++ z.bytes) ((x :: rest).map Ipv4Tcp.bytes)

variable {frame : List Byte} {group : List (List Byte)}

theorem map_essence_bytes (xs : List Ipv4Tcp) :
    (xs.map Ipv4Tcp.bytes).map essence = xs.map Ipv4Tcp.essence := by
  rw [map_map]
  exact map_congr_left fun x _ => essence_bytes x

theorem filterMap_parse_bytes (xs : List Ipv4Tcp) :
    (xs.map Ipv4Tcp.bytes).filterMap parseIpv4Tcp = xs := by
  have parsed : parseIpv4Tcp ∘ Ipv4Tcp.bytes = some := funext fun x => dif_pos x.accepted
  rw [filterMap_map, parsed, filterMap_some]

theorem uniform_alone (pkt : List Byte) : Uniform ([pkt].filterMap parseIpv4Tcp) := by
  intro x first
  rw [filterMap_cons] at first ⊢
  split at first
  · exact absurd first (by simp)
  · next y parsed =>
    have isFirst : y = x := by simpa using first
    have := x.bounds
    have length := x.totalLen_eq
    simp only [filterMap_nil, mem_singleton, forall_eq, isFirst, le_refl,
      and_self, dropLast_singleton, not_mem_nil, false_imp_iff, implies_true,
      map_cons, map_nil, sum_singleton, true_and]
    omega

theorem sum_of_whole {size : Nat} {xs : List Ipv4Tcp} (whole : ∀ y ∈ xs, y.payloadLen = size) :
    (xs.map Ipv4Tcp.payloadLen).sum = xs.length * size := by
  rw [map_congr_left whole, map_const', sum_replicate, smul_eq_mul]

/-- The run is of full segments exactly if its length is a multiple of theirs. -/
theorem whole_iff_sum_mod {size : Nat} {xs : List Ipv4Tcp}
    (each : ∀ y ∈ xs, 0 < y.payloadLen ∧ y.payloadLen ≤ size)
    (whole : ∀ y ∈ xs.dropLast, y.payloadLen = size) :
    (∀ y ∈ xs, y.payloadLen = size) ↔ (xs.map Ipv4Tcp.payloadLen).sum % size = 0 := by
  refine ⟨fun all => by rw [sum_of_whole all, Nat.mul_mod_left], fun multiple => ?_⟩
  rcases eq_nil_or_concat' xs with rfl | ⟨front, last, rfl⟩
  · nofun
  · rw [dropLast_concat] at whole
    have := each last (by simp)
    rw [map_append, sum_append, sum_of_whole whole, map_singleton, sum_singleton,
      Nat.mul_add_mod'] at multiple
    have full : last.payloadLen = size := by
      rcases this.2.lt_or_eq with less | same
      · rw [Nat.mod_eq_of_lt less] at multiple
        omega
      · exact same
    exact forall_mem_append.mpr ⟨whole, forall_mem_singleton.mpr full⟩

theorem uniform_concat_iff {x y : Ipv4Tcp} {rest : List Ipv4Tcp}
    (some : ∀ z ∈ x :: rest, 0 < z.payloadLen) :
    Uniform (x :: rest ++ [y]) ↔ Uniform (x :: rest) ∧ y.template = x.template ∧
      y.payloadLen ≤ x.payloadLen ∧
      ((x :: rest).map Ipv4Tcp.payloadLen).sum % x.payloadLen = 0 ∧
      x.payloadOff + ((x :: rest).map Ipv4Tcp.payloadLen).sum + y.payloadLen ≤ 65535 := by
  simp only [Uniform, head?_append, head?_cons, Option.some_or, Option.mem_some_iff, forall_eq',
    dropLast_concat, map_append, sum_append, map_singleton, sum_singleton, ← Nat.add_assoc]
  generalize x :: rest = xs at some
  constructor
  · rintro ⟨each, whole, fits⟩
    obtain ⟨before, last⟩ := forall_mem_append.mp each
    have last := last y mem_cons_self
    refine ⟨⟨before, fun z member => whole z (mem_of_mem_dropLast member), by omega⟩, last.1,
      last.2, ?_, fits⟩
    rw [sum_of_whole whole, Nat.mul_mod_left]
  · rintro ⟨⟨before, whole, -⟩, template, short, multiple, fits⟩
    refine ⟨forall_mem_append.mpr ⟨before, forall_mem_singleton.mpr ⟨template, short⟩⟩, ?_, fits⟩
    exact (whole_iff_sum_mod (fun z member => ⟨some z member, (before z member).2⟩) whole).mpr
      multiple

theorem Sent.lossless_iff (sent : Sent frame group) (valid : ∀ pkt ∈ group, Measured pkt) :
    ((splitGro frame).getD []).map essence = group.map essence ∧
        Measured (frame.drop vnetHdrLen) ↔
      Uniform (group.filterMap parseIpv4Tcp) := by
  cases sent with
  | alone pkt =>
    rw [splitGro_alone]
    exact iff_of_true ⟨rfl, valid pkt mem_cons_self⟩ (uniform_alone pkt)
  | @run x z rest joined isSuper =>
    have some := (joined.some x mem_cons_self).1
    obtain ⟨segments, split, essences⟩ := splitGro_super isSuper some
    have total := isSuper.totalLen
    have whole (fits : x.payloadOff + (payloads (x :: rest)).length ≤ 65535) :
        z.payload = payloads (x :: rest) := by
      rw [isSuper.payload, take_of_length_le (by omega)]
    rw [split, Option.getD_some, essences, map_essence_bytes, filterMap_parse_bytes,
      show (writeVnetHdr x.vnetHdr ++ z.bytes).drop vnetHdrLen = z.bytes from
        drop_left' rfl, isSuper.measured_iff]
    simp only [Uniform, head?_cons, Option.mem_some_iff, forall_eq', ← length_payloads]
    rw [← and_assoc, and_congr_left_iff]
    intro fits
    rw [whole fits]
    exact joined.segmentEssences_eq_iff some

theorem Sent.comparable (sent : Sent frame group) :
    ((splitGro frame).getD []).map essence = group.map essence ∨
      (∀ value ∈ ((splitGro frame).getD []).map essence ++ group.map essence,
          0 < value.payload.length) ∧
        ((((splitGro frame).getD []).map essence).map (·.payload.length)).sum ≤
          ((group.map essence).map (·.payload.length)).sum := by
  cases sent with
  | alone pkt =>
    rw [splitGro_alone]
    exact Or.inl rfl
  | @run x z rest joined isSuper =>
    have some := (joined.some x mem_cons_self).1
    obtain ⟨segments, split, essences⟩ := splitGro_super isSuper some
    rw [split, Option.getD_some, essences, map_essence_bytes]
    refine Or.inr ⟨fun value member => ?_, ?_⟩
    · rcases mem_append.mp member with segment | packet
      · obtain ⟨i, found⟩ := mem_iff_getElem?.mp segment
        rw [Ipv4Tcp.segmentEssences, getElem?_mapIdx] at found
        obtain ⟨chunk, there, rfl⟩ := Option.map_eq_some_iff.mp found
        have member := mem_of_getElem? there
        exact length_pos_of_ne_nil (Chunking.length_of_mem_chunks member).2.2
      · obtain ⟨y, there, rfl⟩ := mem_map.mp packet
        exact y.length_payload ▸ (joined.some y there).1
    · have segments : (x.segmentEssences z.payload).map (·.payload.length) =
          (Chunking.chunks x.payloadLen z.payload).map length := by
        refine ext_getElem? fun i => ?_
        rw [Ipv4Tcp.segmentEssences, getElem?_map, getElem?_mapIdx, getElem?_map,
          Option.map_map]
        rfl
      have packets : ((x :: rest).map Ipv4Tcp.essence).map (·.payload.length) =
          ((x :: rest).map Ipv4Tcp.payload).map length := by
        rw [map_map, map_map]
        rfl
      rw [segments, packets, ← length_flatten, ← length_flatten,
        Chunking.flatten_chunks some, isSuper.payload, length_take]
      exact min_le_right _ _

end Lossless

/-! ### Pushing packets -/

namespace Coalescer

inductive Holds (c : Coalescer) : List (List Byte) → Prop
  | empty (free : c.hasPending = false) : Holds c []
  | alone {pkt : List Byte} (taken : c.hasPending = true) (single : c.isTcpRun = false)
      (pending : c.pending = writeVnetHdr ⟨0, gsoNone, 0, 0, 0, 0⟩ ++ pkt) : Holds c [pkt]
  | run {x : Ipv4Tcp} {rest : List Ipv4Tcp} (run : c.Run x rest) :
      Holds c ((x :: rest).map Ipv4Tcp.bytes)

variable {c : Coalescer} {group : List (List Byte)}

theorem bytes_of_parse {pkt : List Byte} {x : Ipv4Tcp} (parsed : parseIpv4Tcp pkt = some x) :
    x.bytes = pkt := by
  obtain ⟨accepted, isPacket⟩ := Option.dite_none_right_eq_some.mp parsed
  rw [← Option.some.inj isPacket]

theorem holds_start (c : Coalescer) (pkt : List Byte) : (c.start pkt).Holds [pkt] := by
  have alone : (c.startSingleton pkt).Holds [pkt] := .alone rfl rfl rfl
  unfold start
  split
  · next x parsed =>
    split
    · next some =>
      have := x.bounds
      have size : x.payloadLen < 65536 := by
        unfold Ipv4Tcp.payloadLen
        omega
      have all : payloads [x] = x.payload := by simp [payloads]
      rw [← bytes_of_parse parsed]
      refine @Holds.run _ x [] ⟨⟨rfl, rfl⟩, ?_, ⟨rfl, rfl, if_pos size⟩, ?_, ?_⟩
      · rw [all, ← x.take_totalLen]
        rfl
      · rw [all, x.length_payload]
        rfl
      · refine ⟨fun y member => ?_, fun i y found => ?_⟩
        · rw [mem_singleton.mp member]
          exact ⟨some, rfl⟩
        · obtain ⟨rfl, rfl⟩ : i = 0 ∧ x = y := by simpa using List.getElem?_eq_some_iff.mp found
          exact (Nat.mod_eq_of_lt (be_lt ..)).symm
    · exact alone
  · exact alone

theorem Run.extend {x y : Ipv4Tcp} {rest : List Ipv4Tcp} (run : c.Run x rest)
    (continues : c.Continues y) : (c.extend y).Run x (rest ++ [y]) := by
  obtain ⟨-, -, -, some, -, -, seq, offset, -⟩ := continues
  have all : payloads (x :: (rest ++ [y])) = payloads (x :: rest) ++ y.payload := by
    simp [payloads]
  refine ⟨run.tcp, ?_, run.lengths, ?_, ?_, ?_⟩
  · rw [all, Coalescer.extend, run.pending]
    simp [Ipv4Tcp.bare]
  · rw [all, Coalescer.extend, run.nextSeq, length_append, y.length_payload, Nat.mod_add_mod,
      Nat.add_assoc]
  · rw [← cons_append]
    exact forall_mem_append.mpr
      ⟨run.joined.some, forall_mem_singleton.mpr ⟨some, offset.trans run.lengths.2.1⟩⟩
  · intro i z found
    rw [← cons_append] at found ⊢
    rcases Nat.lt_or_ge i (x :: rest).length with before | after
    · rw [getElem?_append_left before] at found
      rw [take_append_of_le_length before.le]
      exact run.joined.seq i z found
    · rw [getElem?_append_right after, getElem?_singleton] at found
      obtain ⟨none, isLast⟩ := Option.ite_none_right_eq_some.mp found
      have last : i = (x :: rest).length := by omega
      rw [last, take_left, ← Option.some.inj isLast, seq, run.nextSeq]

/-- The bytes of a run still parse, with the header of its first packet. -/
theorem Run.parse_pending {x : Ipv4Tcp} {rest : List Ipv4Tcp} (run : c.Run x rest) :
    ∃ z, parseIpv4Tcp (c.pending.drop vnetHdrLen) = some z ∧ z.template = x.template := by
  have := x.bounds
  have total : be (x.bare (payloads (x :: rest))) 2 2 = x.totalLen :=
    congrArg ofBeBytes (x.slice_bare _ (by omega))
  have length := x.length_bare (payloads (x :: rest))
  have sum := length_payloads (x :: rest)
  have split := x.totalLen_eq
  rw [map_cons, sum_cons] at sum
  have header : x.HeaderOf (x.bare (payloads (x :: rest))) :=
    ⟨fun _ _ inside _ => x.slice_bare _ inside, by omega, by omega⟩
  rw [run.pending, drop_left' length_replicate]
  exact ⟨⟨_, header.accepted⟩, dif_pos header.accepted, Ipv4Tcp.HeaderOf.template_eq header⟩

theorem Run.uniform_iff {x y : Ipv4Tcp} {rest : List Ipv4Tcp} (run : c.Run x rest)
    (parsed : parseIpv4Tcp pkt = some y) (continues : c.Continues y) :
    Uniform (x :: rest ++ [y]) ↔ Uniform (x :: rest) ∧ c.Alike pkt := by
  have length : c.pending.length - vnetHdrLen =
      x.payloadOff + ((x :: rest).map Ipv4Tcp.payloadLen).sum := by
    rw [run.pending, length_append, length_replicate, Nat.add_sub_cancel_left, x.length_bare,
      length_payloads]
  obtain ⟨z, first, template⟩ := run.parse_pending
  obtain ⟨-, offset, size⟩ := run.lengths
  rw [uniform_concat_iff fun z member => (run.joined.some z member).1, Alike, parsed, first]
  simp only [Option.mem_some_iff, forall_eq', continues, true_imp_iff, template, size, length,
    offset, Nat.add_sub_cancel_left]

theorem Holds.takePending (holds : c.Holds group) :
    c.takePending.1 = none ∧ group = [] ∨
      ∃ frame, c.takePending.1 = some frame ∧ Sent frame group := by
  cases holds with
  | empty free => exact Or.inl ⟨by simp [Coalescer.takePending, free], rfl⟩
  | alone taken single pending =>
    refine Or.inr ⟨c.pending, by simp [Coalescer.takePending, taken, single], ?_⟩
    rw [pending]
    exact .alone _
  | run run =>
    obtain ⟨z, isSuper, frame⟩ := run.tcpFrame_eq
    refine Or.inr ⟨c.tcpFrame, by simp [Coalescer.takePending, run.tcp], ?_⟩
    rw [frame]
    exact .run run.joined isSuper

theorem Holds.push (holds : c.Holds group) (pkt : List Byte) :
    ((c.push pkt).1 = none ∧ (c.push pkt).2.Holds (group ++ [pkt]) ∧
      (Uniform ((group ++ [pkt]).filterMap parseIpv4Tcp) ↔
        Uniform (group.filterMap parseIpv4Tcp) ∧ c.Alike pkt)) ∨
      ∃ frame, (c.push pkt).1 = some frame ∧ Sent frame group ∧ (c.push pkt).2.Holds [pkt] ∧
        c.Alike pkt := by
  unfold Coalescer.push
  split
  · next x joins =>
    obtain ⟨parsed, continues⟩ := Option.filter_eq_some_iff.mp joins
    replace continues := of_decide_eq_true continues
    refine Or.inl ⟨rfl, ?_⟩
    cases holds with
    | empty free => exact absurd (free.symm.trans continues.1) Bool.false_ne_true
    | alone _ single _ => exact absurd (single.symm.trans continues.2.1) Bool.false_ne_true
    | @run first rest run =>
      have joined : (first :: rest).map Ipv4Tcp.bytes ++ [pkt] =
          (first :: (rest ++ [x])).map Ipv4Tcp.bytes := by
        simp [bytes_of_parse parsed]
      rw [joined, filterMap_parse_bytes, filterMap_parse_bytes]
      exact ⟨.run (run.extend continues), run.uniform_iff parsed continues⟩
  · next apart =>
    have alike : c.Alike pkt := fun y parsed continues =>
      absurd continues (by simpa using Option.filter_eq_none_iff.mp apart y parsed)
    have started := holds_start c.takePending.2 pkt
    rcases holds.takePending with ⟨nothing, rfl⟩ | ⟨frame, taken, sent⟩
    · exact Or.inl ⟨nothing, started, iff_of_true (uniform_alone pkt) ⟨nofun, alike⟩⟩
    · exact Or.inr ⟨frame, taken, sent, started, alike⟩

theorem Holds.feed (holds : c.Holds group) (pkts : List (List Byte)) :
    (c.feed group pkts).flatMap Prod.snd = group ++ pkts ∧
      (∀ sent ∈ c.feed group pkts, Sent sent.1 sent.2) ∧
      ((∀ sent ∈ c.feed group pkts, Uniform (sent.2.filterMap parseIpv4Tcp)) ↔
        Uniform (group.filterMap parseIpv4Tcp) ∧
          Machine.Admissible (fun c pkt => (c.push pkt).2) Alike c pkts) := by
  induction pkts generalizing c group with
  | nil =>
    rw [Coalescer.feed, flush, Machine.Admissible]
    rcases holds.takePending with ⟨nothing, rfl⟩ | ⟨frame, taken, sent⟩
    · simp [nothing, Uniform]
    · simpa [taken] using sent
  | cons pkt rest ih =>
    rw [Coalescer.feed, Machine.Admissible]
    rcases holds.push pkt with ⟨nothing, holds, joins⟩ | ⟨frame, pushed, sent, holds, alike⟩
    · obtain ⟨all, sent, uniform⟩ := ih holds
      rw [← Prod.mk.eta (p := c.push pkt), nothing]
      exact ⟨by simpa using all, sent, by rw [uniform, joins, and_assoc]⟩
    · obtain ⟨all, later, uniform⟩ := ih holds
      rw [← Prod.mk.eta (p := c.push pkt), pushed]
      refine ⟨?_, forall_mem_cons.mpr ⟨sent, later⟩, ?_⟩
      · rw [flatMap_cons, all, singleton_append]
      · rw [forall_mem_cons, uniform]
        simp only [alike, true_and, uniform_alone pkt]

end Coalescer

/-- Splitting what a coalescer emits gives back the packets, and every frame says how long it is,
exactly when each packet that is joined is like the run it is joined to. -/
theorem coalescing_lossless_iff (pkts : List (List Byte)) (valid : ∀ pkt ∈ pkts, Measured pkt) :
    (((Coalescer.new.feed [] pkts).flatMap fun sent => (splitGro sent.1).getD []).map essence =
        pkts.map essence ∧
      ∀ sent ∈ Coalescer.new.feed [] pkts, Measured (sent.1.drop vnetHdrLen)) ↔
    Machine.Admissible (fun c pkt => (c.push pkt).2) Coalescer.Alike Coalescer.new pkts := by
  obtain ⟨all, sent, guarded⟩ := (Coalescer.Holds.empty rfl : Coalescer.new.Holds []).feed pkts
  rw [nil_append] at all
  rw [← guarded.trans (and_iff_right nofun)]
  generalize Coalescer.new.feed [] pkts = frames at all sent
  have one (pair) (member : pair ∈ frames) := (sent pair member).lossless_iff fun pkt inside =>
    valid pkt (all ▸ mem_flatMap.mpr ⟨pair, member, inside⟩)
  let pairs := frames.map fun sent =>
    (((splitGro sent.1).getD []).map essence, sent.2.map essence)
  have given : pairs.flatMap Prod.snd = pkts.map essence := by
    rw [← all, map_flatMap, flatMap_map]
  have back : pairs.flatMap Prod.fst =
      (frames.flatMap fun sent => (splitGro sent.1).getD []).map essence := by
    rw [map_flatMap, flatMap_map]
  rw [← back, ← given]
  constructor
  · rintro ⟨same, measured⟩ pair member
    refine (one pair member).mp ⟨?_, measured pair member⟩
    refine ArrayList.eq_of_flatMap_eq (·.payload.length) ?_ same _ (mem_map_of_mem member)
    exact forall_mem_map.mpr fun pair member => (sent pair member).comparable
  · intro uniform
    refine ⟨?_, fun pair member => ((one pair member).mpr (uniform pair member)).2⟩
    rw [flatMap_map, flatMap_map]
    exact flatMap_congr fun pair member => ((one pair member).mpr (uniform pair member)).1

def oneByte (seq ack : Nat) : List Byte :=
  [0x45, 0, 0, 41, 0, 7, 0x40, 0, 64, 6, 0, 0, 10, 0, 0, 1, 10, 0, 0, 2, 0, 80, 0, 81, 0, 0, 0, seq,
    0, 0, 0, ack, 0x50, 0x10, 1, 0, 0, 0, 0, 0, 9].map Byte.ofNat

/-- Two packets with one acknowledgement number come back. -/
theorem equal_headers_come_back :
    (Coalescer.new.feed [] [oneByte 5 1, oneByte 6 1]).length = 1 ∧
      ((Coalescer.new.feed [] [oneByte 5 1, oneByte 6 1]).flatMap
        fun sent => (splitGro sent.1).getD []).map essence =
          [oneByte 5 1, oneByte 6 1].map essence := by
  refine ⟨by decide +kernel, ?_⟩
  exact ((coalescing_lossless_iff _ (by decide +kernel)).mpr (by decide +kernel)).1

/-- Of two numbers the second one is lost. -/
theorem second_acknowledgement_lost :
    (∀ pkt ∈ [oneByte 5 1, oneByte 6 2], Measured pkt) ∧
      ((Coalescer.new.feed [] [oneByte 5 1, oneByte 6 2]).flatMap
        fun sent => (splitGro sent.1).getD []).map (be · 28 4) = [1, 1] := by
  decide +kernel

end Yip.Io
