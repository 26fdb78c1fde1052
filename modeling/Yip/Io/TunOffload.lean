/-
This file models the segmentation offload at the TUN device (`tun_offload.rs`) on the way in: a
super-packet of the kernel is split into segments that can be sent.
-/

import Yip.Basic
import Yip.Lib.Chunking
import Yip.Lib.InternetChecksum

namespace Yip.Io

open ArrayList InternetChecksum List

/-! ### Headers -/

def be (buf : List Byte) (offset width : Nat) : Nat := ofBeBytes (slice buf offset width)

def vnetHdrLen : Nat := 10

def gsoNone : Nat := 0

def fNeedsCsum : Nat := 1

structure VirtioNetHdr where
  flags : Nat
  gsoType : Nat
  hdrLen : Nat
  gsoSize : Nat
  csumStart : Nat
  csumOffset : Nat
  deriving DecidableEq

def ne16 (buf : List Byte) (offset : Nat) : Nat := be buf offset 1 + 256 * be buf (offset + 1) 1

def readVnetHdr (buf : List Byte) : Option VirtioNetHdr :=
  if buf.length < vnetHdrLen then none
  else some ⟨be buf 0 1, be buf 1 1, ne16 buf 2, ne16 buf 4, ne16 buf 6, ne16 buf 8⟩

def ihl (pkt : List Byte) : Nat := be pkt 0 1 % 16 * 4

def dataOff (pkt : List Byte) : Nat := be pkt (ihl pkt + 12) 1 / 16 * 4

def Accepted (pkt : List Byte) : Prop :=
  20 ≤ pkt.length ∧ be pkt 0 1 / 16 = 4 ∧ 20 ≤ ihl pkt ∧ ihl pkt ≤ pkt.length ∧ be pkt 9 1 = 6 ∧
    be pkt 6 2 &&& 0x2000 = 0 ∧ be pkt 6 2 &&& 0x1fff = 0 ∧ ihl pkt ≤ be pkt 2 2 ∧
    be pkt 2 2 ≤ pkt.length ∧ ihl pkt + 20 ≤ be pkt 2 2 ∧ 20 ≤ dataOff pkt ∧
    ihl pkt + dataOff pkt ≤ be pkt 2 2

instance (pkt : List Byte) : Decidable (Accepted pkt) := inferInstanceAs (Decidable (_ ∧ _))

/-- A packet the splitter accepts. -/
structure Ipv4Tcp where
  bytes : List Byte
  accepted : Accepted bytes

def parseIpv4Tcp (pkt : List Byte) : Option Ipv4Tcp :=
  if accepted : Accepted pkt then some ⟨pkt, accepted⟩ else none

structure FlowKey where
  src : Nat
  dst : Nat
  sport : Nat
  dport : Nat
  deriving DecidableEq

namespace Ipv4Tcp

def ipHdrLen (x : Ipv4Tcp) : Nat := ihl x.bytes

def totalLen (x : Ipv4Tcp) : Nat := be x.bytes 2 2

def key (x : Ipv4Tcp) : FlowKey :=
  ⟨be x.bytes 12 4, be x.bytes 16 4, be x.bytes x.ipHdrLen 2, be x.bytes (x.ipHdrLen + 2) 2⟩

def seq (x : Ipv4Tcp) : Nat := be x.bytes (x.ipHdrLen + 4) 4

def flags (x : Ipv4Tcp) : Nat := be x.bytes (x.ipHdrLen + 13) 1

def payloadOff (x : Ipv4Tcp) : Nat := x.ipHdrLen + dataOff x.bytes

def payloadLen (x : Ipv4Tcp) : Nat := x.totalLen - x.payloadOff

def payload (x : Ipv4Tcp) : List Byte := slice x.bytes x.payloadOff x.payloadLen

end Ipv4Tcp

def tcpFlagFin : Nat := 0x01

def tcpFlagPsh : Nat := 0x08

/-! ### Checksums -/

def sumOf (bytes : List Byte) : Nat := wordSum (bytes.map Byte.toNat)

def withChecksum (field : Nat) (sum : List Byte → Nat) (bytes : List Byte) : List Byte :=
  let zeroed := copyInto bytes field (toBeBytes 2 0)
  copyInto zeroed field (toBeBytes 2 (checksum (sum zeroed)))

def ipv4Checksum (hdr : List Byte) : List Byte := withChecksum 10 sumOf hdr

def tcpSum (ipHdrLen : Nat) (pkt : List Byte) : Nat :=
  sumOf (slice pkt 12 8) + 6 + (pkt.length - ipHdrLen) % 65536 + sumOf (pkt.drop ipHdrLen)

def tcpChecksum (pkt : List Byte) (ipHdrLen : Nat) : List Byte :=
  withChecksum (ipHdrLen + 16) (tcpSum ipHdrLen) pkt

def completePartialCsum (pkt : List Byte) (csumStart csumOffset : Nat) : List Byte :=
  if csumStart ≥ pkt.length ∨ csumStart + csumOffset + 2 > pkt.length then pkt
  else
    let ck := checksum (sumOf (pkt.drop csumStart))
    let ck := if ck = 0 ∧ be pkt 9 1 = 17 then 0xffff else ck
    copyInto pkt (csumStart + csumOffset) (toBeBytes 2 ck)

/-! ### Splitting -/

namespace Ipv4Tcp

def bare (x : Ipv4Tcp) (chunk : List Byte) : List Byte := x.bytes.take x.payloadOff ++ chunk

def fields (x : Ipv4Tcp) (seq ipId : Nat) (chunk : List Byte) : List (Nat × List Byte) :=
  [(2, toBeBytes 2 (x.bare chunk).length), (4, toBeBytes 2 ipId),
    (x.ipHdrLen + 4, toBeBytes 4 seq)]

def written (x : Ipv4Tcp) (seq ipId : Nat) (chunk : List Byte) : List Byte :=
  patch (x.bare chunk) (x.fields seq ipId chunk)

def checked (x : Ipv4Tcp) (seq ipId : Nat) (chunk : List Byte) : List Byte :=
  ipv4Checksum ((x.written seq ipId chunk).take x.ipHdrLen) ++
    (x.written seq ipId chunk).drop x.ipHdrLen

def segment (x : Ipv4Tcp) (seq ipId : Nat) (chunk : List Byte) : List Byte :=
  tcpChecksum (x.checked seq ipId chunk) x.ipHdrLen

def splitFrom (x : Ipv4Tcp) (seg seq ipId : Nat) (payload : List Byte) : List (List Byte) :=
  if payload = [] ∨ seg = 0 then []
  else x.segment seq ipId (payload.take seg) ::
    x.splitFrom seg ((seq + (payload.take seg).length) % 2 ^ 32) ((ipId + 1) % 2 ^ 16)
      (payload.drop seg)
termination_by payload.length
decreasing_by
  have positive := length_pos_of_ne_nil fun empty : payload = [] => by simp_all
  rw [length_drop]
  omega

end Ipv4Tcp

def splitGro (frame : List Byte) : Option (List (List Byte)) := do
  let h ← readVnetHdr frame
  let body := frame.drop vnetHdrLen
  if h.gsoType = gsoNone ∨ h.gsoSize = 0 then
    return [if h.flags &&& fNeedsCsum ≠ 0 then completePartialCsum body h.csumStart h.csumOffset
      else body]
  else
    let x ← parseIpv4Tcp body
    return x.splitFrom h.gsoSize x.seq (be body 4 2) x.payload

/-! ### The checksums are right -/

theorem be_lt (buf : List Byte) (offset width : Nat) : be buf offset width < 256 ^ width :=
  (ofBeBytes_lt _).trans_le (Nat.pow_le_pow_right (by decide) (by simp [slice]))

section Checksums

variable {bytes : List Byte} {field : Nat} {sum : List Byte → Nat}

theorem map_copyInto (data : List Byte) :
    (copyInto bytes field data).map Byte.toNat =
      copyInto (bytes.map Byte.toNat) field (data.map Byte.toNat) := by
  simp [copyInto]

theorem sumOf_copyInto {value : Nat} (even : field % 2 = 0) (inside : field + 2 ≤ bytes.length)
    (small : value < 65536) :
    sumOf (copyInto bytes field (toBeBytes 2 value)) =
      sumOf (copyInto bytes field (toBeBytes 2 0)) + value := by
  have digits (value : Nat) : (toBeBytes 2 value).map Byte.toNat =
      [value / 256 % 256, value % 256] := by
    simp [toBeBytes, Byte.toNat_ofNat]
  simp only [sumOf, map_copyInto, digits]
  rw [wordSum_copyInto even (by rwa [length_map]), Nat.zero_div, Nat.zero_mod]
  omega

theorem fold_withChecksum (inside : field + 2 ≤ bytes.length)
    (adds : ∀ value < 65536, sum (copyInto bytes field (toBeBytes 2 value)) =
      sum (copyInto bytes field (toBeBytes 2 0)) + value) :
    fold (sum (withChecksum field sum bytes)) = 65535 := by
  have front : (bytes.take field).length = field := by
    rw [length_take, min_eq_left (by omega)]
  have twice (first second : Nat) : copyInto (copyInto bytes field (toBeBytes 2 first)) field
      (toBeBytes 2 second) = copyInto bytes field (toBeBytes 2 second) := by
    rw [copyInto, drop_copyInto (by rwa [length_toBeBytes]) (by simp), copyInto,
      append_assoc (bytes.take field), take_left' front, copyInto]
  have small (value : Nat) : checksum value < 65536 := by
    unfold checksum
    omega
  rw [withChecksum, twice, adds _ (small _)]
  exact fold_add_checksum _

theorem exists_ipv4Checksum {header : Nat} (long : 12 ≤ header) (inside : header ≤ bytes.length) :
    ∃ ck, ipv4Checksum (bytes.take header) ++ bytes.drop header =
      patch bytes [(10, toBeBytes 2 0), (10, toBeBytes 2 ck)] := by
  have front : (bytes.take header).length = header := by
    rw [length_take, min_eq_left inside]
  have room (value : Nat) : 10 + (toBeBytes 2 value).length ≤ (bytes.take header).length := by
    rw [front, length_toBeBytes]
    omega
  rw [ipv4Checksum, withChecksum, ← copyInto_append, ← copyInto_append (room 0),
    take_append_drop]
  · exact ⟨_, rfl⟩
  · rw [length_copyInto _ _ _ (room 0)]
    exact room _

end Checksums

/-! ### The segments -/

namespace Ipv4Tcp

variable (x : Ipv4Tcp) (seq ipId : Nat) (chunk : List Byte)

theorem bounds : 20 ≤ x.ipHdrLen ∧ x.ipHdrLen % 2 = 0 ∧ x.ipHdrLen + 20 ≤ x.payloadOff ∧
    x.payloadOff ≤ x.totalLen ∧ x.totalLen ≤ x.bytes.length ∧ x.totalLen < 65536 := by
  obtain ⟨-, -, header, -, -, -, -, -, whole, -, data, inside⟩ := x.accepted
  have small : be x.bytes 2 2 < 65536 := be_lt ..
  unfold payloadOff totalLen ipHdrLen
  have even : ihl x.bytes % 2 = 0 := by
    unfold ihl
    omega
  omega

def Apart (x : Ipv4Tcp) (start len : Nat) : Prop :=
  start + len ≤ 2 ∨ 6 ≤ start ∧ start + len ≤ 10 ∨ 12 ≤ start ∧ start + len ≤ x.ipHdrLen + 4 ∨
    x.ipHdrLen + 8 ≤ start ∧ start + len ≤ x.ipHdrLen + 16 ∨ x.ipHdrLen + 18 ≤ start

structure HeaderOf (x : Ipv4Tcp) (s : List Byte) : Prop where
  same : ∀ start len, start + len ≤ x.payloadOff → x.Apart start len →
    slice s start len = slice x.bytes start len
  long : x.payloadOff ≤ be s 2 2
  whole : be s 2 2 ≤ s.length

section Header

variable {x} {s : List Byte} (header : x.HeaderOf s)

include header

theorem HeaderOf.be_eq {start len : Nat} (inside : start + len ≤ x.payloadOff)
    (apart : x.Apart start len) : be s start len = be x.bytes start len :=
  congrArg ofBeBytes (header.same start len inside apart)

theorem HeaderOf.ihl_eq : ihl s = x.ipHdrLen := by
  have := x.bounds
  rw [ihl, header.be_eq (by omega) (Or.inl (by decide))]
  rfl

theorem HeaderOf.dataOff_eq : dataOff s = dataOff x.bytes := by
  have := x.bounds
  rw [dataOff, header.ihl_eq, header.be_eq (by omega) (by unfold Apart; omega)]
  rfl

theorem HeaderOf.accepted : Accepted s := by
  have := x.bounds
  have long := header.long
  have whole := header.whole
  have offset : x.payloadOff = x.ipHdrLen + dataOff x.bytes := rfl
  obtain ⟨-, version, -, -, protocol, more, first, -, -, -, data, -⟩ := x.accepted
  have apart (start len : Nat) (inside : 6 ≤ start ∧ start + len ≤ 10) : x.Apart start len :=
    Or.inr (Or.inl inside)
  rw [Accepted, header.ihl_eq, header.dataOff_eq, header.be_eq (by omega) (Or.inl (by decide)),
    header.be_eq (by omega) (apart 9 1 (by decide)),
    header.be_eq (by omega) (apart 6 2 (by decide))]
  exact ⟨by omega, version, by omega, by omega, protocol, more, first, by omega, whole, by omega,
    data, by omega⟩

end Header

theorem length_bare : (x.bare chunk).length = x.payloadOff + chunk.length := by
  have := x.bounds
  rw [bare, length_append, length_take, min_eq_left (by omega)]

theorem length_written : (x.written seq ipId chunk).length = x.payloadOff + chunk.length := by
  have := x.bounds
  rw [written, length_patch, length_bare]
  simp only [fields, forall_mem_cons, length_toBeBytes, length_bare, not_mem_nil,
    false_imp_iff, implies_true, and_true]
  omega

theorem length_take_written : ((x.written seq ipId chunk).take x.ipHdrLen).length = x.ipHdrLen := by
  have := x.bounds
  rw [length_take, length_written, min_eq_left (by omega)]

def sums (x : Ipv4Tcp) (ip tcp : Nat) : List (Nat × List Byte) :=
  [(10, toBeBytes 2 0), (10, toBeBytes 2 ip), (x.ipHdrLen + 16, toBeBytes 2 0),
    (x.ipHdrLen + 16, toBeBytes 2 tcp)]

def writes (x : Ipv4Tcp) (seq ipId : Nat) (chunk : List Byte) (ip tcp : Nat) :
    List (Nat × List Byte) :=
  x.fields seq ipId chunk ++ x.sums ip tcp

theorem forall_mem_writes {ip tcp : Nat} {p : Nat → Nat → Prop} :
    (∀ patch ∈ x.writes seq ipId chunk ip tcp, p patch.1 patch.2.length) ↔
      p 2 2 ∧ p 4 2 ∧ p (x.ipHdrLen + 4) 4 ∧ p 10 2 ∧ p (x.ipHdrLen + 16) 2 := by
  simp only [writes, fields, sums, cons_append, nil_append, forall_mem_cons,
    length_toBeBytes, not_mem_nil, false_imp_iff, implies_true, and_true, and_self_left,
    and_self]

theorem segment_eq : ∃ ip tcp : Nat,
    x.segment seq ipId chunk = patch (x.bare chunk) (x.writes seq ipId chunk ip tcp) := by
  have := x.bounds
  have length := x.length_written seq ipId chunk
  obtain ⟨ip, checked⟩ := exists_ipv4Checksum (by omega : 12 ≤ x.ipHdrLen)
    (by omega : _ ≤ (x.written seq ipId chunk).length)
  rw [segment, Ipv4Tcp.checked, checked]
  exact ⟨ip, _, rfl⟩

theorem writes_inside (ip tcp : Nat) : ∀ patch ∈ x.writes seq ipId chunk ip tcp,
    patch.1 + patch.2.length ≤ (x.bare chunk).length := by
  have := x.bounds
  rw [x.forall_mem_writes seq ipId chunk (p := fun offset width => offset + width ≤ _),
    length_bare]
  omega

theorem length_segment : (x.segment seq ipId chunk).length = x.payloadOff + chunk.length := by
  obtain ⟨ip, tcp, written⟩ := x.segment_eq seq ipId chunk
  rw [written, length_patch (x.writes_inside seq ipId chunk ip tcp), length_bare]

theorem slice_segment {start len : Nat} (apart : x.Apart start len) :
    slice (x.segment seq ipId chunk) start len = slice (x.bare chunk) start len := by
  have := x.bounds
  obtain ⟨ip, tcp, written⟩ := x.segment_eq seq ipId chunk
  rw [written]
  refine slice_patch (x.writes_inside seq ipId chunk ip tcp) ?_
  rw [x.forall_mem_writes seq ipId chunk
    (p := fun offset width => start + len ≤ offset ∨ offset + width ≤ start)]
  unfold Apart at apart
  omega

theorem slice_bare {start len : Nat} (inside : start + len ≤ x.payloadOff) :
    slice (x.bare chunk) start len = slice x.bytes start len := by
  have := x.bounds
  have front : slice (x.bytes.take x.payloadOff) start len = slice x.bytes start len := by
    rw [slice, slice, drop_take, take_take, min_eq_left (by omega)]
  have whole := length_slice x.bytes start len (by omega)
  rw [bare, slice_append (front ▸ whole), front]

theorem drop_segment : (x.segment seq ipId chunk).drop x.payloadOff = chunk := by
  have := x.bounds
  have front : (x.bytes.take x.payloadOff).length = x.payloadOff := by
    rw [length_take, min_eq_left (by omega)]
  have cut : slice (x.segment seq ipId chunk) x.payloadOff chunk.length =
      slice (x.bare chunk) x.payloadOff chunk.length :=
    x.slice_segment seq ipId chunk (by unfold Apart; omega)
  rw [slice, take_of_length_le (by simp [length_segment]), bare, slice,
    drop_left' front, take_length] at cut
  exact cut

theorem be_segment_totalLen (fits : x.payloadOff + chunk.length < 65536) :
    be (x.segment seq ipId chunk) 2 2 = x.payloadOff + chunk.length := by
  have := x.bounds
  obtain ⟨ip, tcp, written⟩ := x.segment_eq seq ipId chunk
  have there : slice (patch (x.bare chunk) (x.writes seq ipId chunk ip tcp)) 2 2 =
      toBeBytes 2 (x.bare chunk).length := by
    refine @slice_patch_self _ _ _ _ [] ((4, _) :: (_, _) :: x.sums ip tcp) _
      (length_toBeBytes ..) (x.writes_inside seq ipId chunk ip tcp) ?_
    simp only [sums, forall_mem_cons, length_toBeBytes, not_mem_nil, false_imp_iff,
      implies_true, and_true]
    omega
  rw [be, written, there, ofBeBytes_toBeBytes, length_bare]
  exact Nat.mod_eq_of_lt fits

theorem be_segment_seq (small : seq < 2 ^ 32) :
    be (x.segment seq ipId chunk) (x.ipHdrLen + 4) 4 = seq := by
  have := x.bounds
  obtain ⟨ip, tcp, written⟩ := x.segment_eq seq ipId chunk
  have there : slice (patch (x.bare chunk) (x.writes seq ipId chunk ip tcp)) (x.ipHdrLen + 4) 4 =
      toBeBytes 4 seq := by
    refine @slice_patch_self _ _ _ _ [_, _] (x.sums ip tcp) _ (length_toBeBytes ..)
      (x.writes_inside seq ipId chunk ip tcp) ?_
    simp only [sums, forall_mem_cons, length_toBeBytes, not_mem_nil, false_imp_iff,
      implies_true, and_true]
    omega
  rw [be, written, there, ofBeBytes_toBeBytes]
  exact Nat.mod_eq_of_lt small

theorem headerOf_segment (fits : x.payloadOff + chunk.length < 65536) :
    x.HeaderOf (x.segment seq ipId chunk) where
  same start len inside apart :=
    (x.slice_segment seq ipId chunk apart).trans (x.slice_bare chunk inside)
  long := by
    rw [x.be_segment_totalLen seq ipId chunk fits]
    omega
  whole := by rw [x.be_segment_totalLen seq ipId chunk fits, length_segment]

theorem length_front : (ipv4Checksum ((x.written seq ipId chunk).take x.ipHdrLen)).length =
    x.ipHdrLen := by
  have := x.bounds
  have front := x.length_take_written seq ipId chunk
  have room (value : Nat) : 10 + (toBeBytes 2 value).length ≤
      ((x.written seq ipId chunk).take x.ipHdrLen).length := by
    rw [front, length_toBeBytes]
    omega
  have zeroed := length_copyInto _ _ _ (room 0)
  rw [ipv4Checksum, withChecksum, length_copyInto _ _ _ (zeroed.symm ▸ room _), zeroed, front]

theorem length_checked : (x.checked seq ipId chunk).length = x.payloadOff + chunk.length := by
  have := x.bounds
  rw [checked, length_append, length_front, length_drop, length_written]
  omega

theorem fold_ipSum : fold (sumOf ((x.segment seq ipId chunk).take x.ipHdrLen)) = 65535 := by
  have := x.bounds
  have length := x.length_checked seq ipId chunk
  have header := x.length_take_written seq ipId chunk
  have cut : slice (x.segment seq ipId chunk) 0 x.ipHdrLen =
      slice (x.checked seq ipId chunk) 0 x.ipHdrLen := by
    rw [segment, tcpChecksum, withChecksum, slice_copyInto, slice_copyInto] <;>
      simp only [length_toBeBytes, length_copyInto _ _ _ (by simp; omega : x.ipHdrLen + 16 +
        (toBeBytes 2 0).length ≤ (x.checked seq ipId chunk).length)] <;> omega
  rw [slice, slice, drop_zero, drop_zero, checked,
    take_left' (x.length_front seq ipId chunk)] at cut
  rw [cut]
  refine fold_withChecksum (by omega) fun value small => ?_
  exact sumOf_copyInto (by decide) (by omega) small

theorem fold_tcpSum : fold (tcpSum x.ipHdrLen (x.segment seq ipId chunk)) = 65535 := by
  have := x.bounds
  have length := x.length_checked seq ipId chunk
  refine fold_withChecksum (by omega) fun value small => ?_
  have inside (value : Nat) : x.ipHdrLen + 16 + (toBeBytes 2 value).length ≤
      (x.checked seq ipId chunk).length := by
    rw [length_toBeBytes]
    omega
  have rest : x.ipHdrLen + 16 ≤ (x.checked seq ipId chunk).length := by omega
  simp only [tcpSum, slice_copyInto (inside _) (Or.inl (by omega : 12 + 8 ≤ x.ipHdrLen + 16)),
    length_copyInto _ _ _ (inside _), drop_copyInto_add rest]
  rw [sumOf_copyInto (by decide) (by rw [length_drop]; omega) small]
  omega

theorem splitFrom_eq {seg seq ipId : Nat} {payload : List Byte} (seqSmall : seq < 2 ^ 32)
    (idSmall : ipId < 2 ^ 16) :
    x.splitFrom seg seq ipId payload = (Chunking.chunks seg payload).mapIdx fun i chunk =>
      x.segment ((seq + i * seg) % 2 ^ 32) ((ipId + i) % 2 ^ 16) chunk := by
  fun_induction x.splitFrom seg seq ipId payload with
  | case1 seq ipId payload done => rw [Chunking.chunks, if_pos done, mapIdx_nil]
  | case2 seq ipId payload more ih =>
    rw [Chunking.chunks, if_neg more, mapIdx_cons, ih
      (Nat.mod_lt _ (by decide)) (Nat.mod_lt _ (by decide))]
    simp only [Nat.zero_mul, Nat.add_zero, Nat.mod_eq_of_lt seqSmall, Nat.mod_eq_of_lt idSmall]
    refine congrArg (cons _) ?_
    -- Every chunk but the last is a whole one.
    by_cases last : payload.drop seg = []
    · rw [last, Chunking.chunks_nil, mapIdx_nil, mapIdx_nil]
    · have whole : (payload.take seg).length = seg := by
        rw [length_take, min_eq_left]
        exact le_of_not_ge fun short => last (drop_of_length_le short)
      refine congrArg (mapIdx · _) (funext fun i => funext fun chunk => ?_)
      rw [whole, Nat.mod_add_mod, Nat.mod_add_mod, Nat.add_assoc, Nat.add_assoc, Nat.add_comm 1 i,
        Nat.add_mul, Nat.one_mul, Nat.add_comm seg]

/-- The segment is in its place and its checksums hold. -/
structure Faithful (x : Ipv4Tcp) (size before : Nat) (s : List Byte) : Prop where
  short : (s.drop x.payloadOff).length ≤ size
  seq : be s (x.ipHdrLen + 4) 4 = (x.seq + before) % 2 ^ 32
  totalLen : be s 2 2 = s.length
  ipSum : fold (sumOf (s.take x.ipHdrLen)) = 65535
  tcpSum : fold (tcpSum x.ipHdrLen s) = 65535

end Ipv4Tcp

/-- A super-packet is split into segments that are in order and have its payload together. FIN and
PSH are on the last one only, exactly when the super-packet has neither or fits one segment. -/
theorem split_faithful_iff {frame : List Byte} {h : VirtioNetHdr} {x : Ipv4Tcp}
    (read : readVnetHdr frame = some h) (gso : h.gsoType ≠ gsoNone) (sized : h.gsoSize ≠ 0)
    (parsed : parseIpv4Tcp (frame.drop vnetHdrLen) = some x) :
    ∃ segments, splitGro frame = some segments ∧
      segments.flatMap (·.drop x.payloadOff) = x.payload ∧
      (∀ (i : Nat) s, segments[i]? = some s →
        x.Faithful h.gsoSize ((segments.take i).flatMap (·.drop x.payloadOff)).length s) ∧
      ((∀ (i : Nat) s, segments[i]? = some s → ∀ flag ∈ [tcpFlagFin, tcpFlagPsh],
          (be s (x.ipHdrLen + 13) 1 &&& flag ≠ 0 ↔
            x.flags &&& flag ≠ 0 ∧ i + 1 = segments.length)) ↔
        (x.flags &&& tcpFlagFin = 0 ∧ x.flags &&& tcpFlagPsh = 0) ∨ x.payloadLen ≤ h.gsoSize) := by
  have := x.bounds
  have positive := Nat.pos_of_ne_zero sized
  have length : x.payload.length = x.payloadLen := by
    refine length_slice _ _ _ ?_
    unfold Ipv4Tcp.payloadLen
    omega
  have fits : ∀ chunk ∈ Chunking.chunks h.gsoSize x.payload,
      x.payloadOff + chunk.length < 65536 := by
    intro chunk member
    have within := (Chunking.length_of_mem_chunks member).2.1
    unfold Ipv4Tcp.payloadLen at length
    omega
  obtain ⟨segments, split, chunked, each⟩ : ∃ segments, splitGro frame = some segments ∧
      segments.map (·.drop x.payloadOff) = Chunking.chunks h.gsoSize x.payload ∧
      ∀ (i : Nat) s, segments[i]? = some s →
        ∃ ipId, ∃ chunk ∈ Chunking.chunks h.gsoSize x.payload,
          s = x.segment ((x.seq + i * h.gsoSize) % 2 ^ 32) ipId chunk := by
    refine ⟨x.splitFrom h.gsoSize x.seq (be (frame.drop vnetHdrLen) 4 2) x.payload, ?_, ?_, ?_⟩
    · simp only [splitGro, read, parsed, Option.bind_eq_bind, Option.bind_some]
      rw [if_neg (not_or.mpr ⟨gso, sized⟩)]
      rfl
    · rw [x.splitFrom_eq (be_lt ..) (be_lt ..)]
      refine ext_getElem? fun i => ?_
      simp only [getElem?_map, getElem?_mapIdx, Option.map_map, Function.comp_def,
        Ipv4Tcp.drop_segment, Option.map_id']
    · intro i s found
      rw [x.splitFrom_eq (be_lt ..) (be_lt ..), getElem?_mapIdx] at found
      obtain ⟨chunk, there, isSegment⟩ := Option.map_eq_some_iff.mp found
      exact ⟨_, chunk, mem_of_getElem? there, isSegment.symm⟩
  have count : segments.length = (Chunking.chunks h.gsoSize x.payload).length := by
    rw [← chunked, length_map]
  refine ⟨segments, split, ?_, fun i s found => ?_, ?_⟩
  · rw [flatMap_def, chunked, Chunking.flatten_chunks positive]
  · obtain ⟨ipId, chunk, member, isSegment⟩ := each i s found
    have early : i < segments.length := (List.getElem?_eq_some_iff.mp found).1
    rw [flatMap_def, map_take, chunked,
      Chunking.length_flatten_take_chunks (count ▸ early), isSegment]
    refine ⟨?_, x.be_segment_seq _ ipId chunk (Nat.mod_lt _ (by decide)), ?_,
      x.fold_ipSum .., x.fold_tcpSum ..⟩
    · rw [x.drop_segment]
      exact (Chunking.length_of_mem_chunks member).1
    · rw [x.be_segment_totalLen _ _ _ (fits chunk member), x.length_segment]
  · have flags : ∀ (i : Nat) s, segments[i]? = some s →
        be s (x.ipHdrLen + 13) 1 = x.flags := by
      intro i s found
      obtain ⟨ipId, chunk, member, isSegment⟩ := each i s found
      have apart : x.Apart (x.ipHdrLen + 13) 1 := by
        unfold Ipv4Tcp.Apart
        omega
      rw [isSegment, (x.headerOf_segment _ ipId chunk (fits chunk member)).be_eq (by omega) apart,
        Ipv4Tcp.flags]
    rw [← length, ← Chunking.length_chunks_le_one_iff positive, ← count]
    constructor
    · intro lastOnly
      by_contra both
      obtain ⟨set, several⟩ := not_or.mp both
      obtain ⟨flag, member, isSet⟩ : ∃ flag ∈ [tcpFlagFin, tcpFlagPsh], x.flags &&& flag ≠ 0 := by
        rcases not_and_or.mp set with fin | psh
        · exact ⟨_, mem_cons_self, fin⟩
        · exact ⟨_, mem_cons_of_mem _ mem_cons_self, psh⟩
      have there : segments[0]? = some (segments.get ⟨0, by omega⟩) :=
        getElem?_eq_getElem (by omega)
      have last := ((lastOnly 0 _ there flag member).mp (by rwa [flags 0 _ there])).2
      omega
    · intro alone i s found flag member
      have early : i < segments.length := (List.getElem?_eq_some_iff.mp found).1
      rw [flags i s found]
      rcases alone with ⟨noFin, noPsh⟩ | single
      · have unset : x.flags &&& flag = 0 := by
          rcases mem_pair.mp member with rfl | rfl <;> assumption
        simp [unset]
      · exact (and_iff_left (by omega)).symm

def superPacket (flags : Nat) (payload : List Byte) : List Byte :=
  [1, 1, 40, 0, 2, 0, 20, 0, 16, 0, 0x45, 0, 0, 40 + payload.length, 0, 7, 0x40, 0, 64, 6, 0, 0,
    10, 0, 0, 1, 10, 0, 0, 2, 0, 80, 0, 81, 0, 0, 0, 5, 0, 0, 0, 0, 0x50, flags, 1, 0, 0, 0, 0,
    0].map Byte.ofNat ++ payload

def ackPacket : Ipv4Tcp := ⟨(superPacket 0x10 [0, 0, 0, 0, 0]).drop vnetHdrLen, by decide +kernel⟩

/-- One without FIN and PSH is split into three segments without them. -/
theorem ack_super_packet_split :
    ∃ segments, splitGro (superPacket 0x10 [0, 0, 0, 0, 0]) = some segments ∧
      segments.length = 3 ∧
      ∀ (i : Nat) s, segments[i]? = some s → ∀ flag ∈ [tcpFlagFin, tcpFlagPsh],
        (be s (ackPacket.ipHdrLen + 13) 1 &&& flag ≠ 0 ↔
          ackPacket.flags &&& flag ≠ 0 ∧ i + 1 = segments.length) := by
  have read : readVnetHdr (superPacket 0x10 [0, 0, 0, 0, 0]) = some ⟨1, 1, 40, 2, 20, 16⟩ := by
    decide +kernel
  have count : (splitGro (superPacket 0x10 [0, 0, 0, 0, 0])).map List.length = some 3 := by
    decide +kernel
  obtain ⟨segments, split, -, -, flags⟩ := split_faithful_iff read (by decide) (by decide)
    (dif_pos ackPacket.accepted)
  rw [split, Option.map_some, Option.some_inj] at count
  exact ⟨segments, split, count, flags.mpr (Or.inl (by decide +kernel))⟩

/-- One with PSH has it on every segment. -/
theorem long_super_packet_pushed_twice :
    (splitGro (superPacket 0x18 [0, 0, 0])).map (List.map (be · 33 1)) = some [0x18, 0x18] := by
  decide +kernel

end Yip.Io
