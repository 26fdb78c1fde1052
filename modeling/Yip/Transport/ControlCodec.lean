/-
This file is about reading back the control frames the data plane sends.
-/

import Yip.Transport.Control

namespace Yip.Transport

open ArrayList List

namespace LossReport

structure Fits (report : LossReport) : Prop where
  deliveredCount : report.deliveredCount < 2 ^ 32
  highCounter : report.highCounter < 2 ^ 64
  missing : ∀ counter ∈ report.missing, counter < 2 ^ 64
  cap : report.missing.length ≤ maxNack

variable {report : LossReport}

theorem encode_of_fits (fits : report.Fits) :
    report.encode = toBeBytes 4 report.deliveredCount ++ (toBeBytes 8 report.highCounter ++
      (toBeBytes 2 report.missing.length ++ (report.missing.map (toBeBytes 8)).flatten)) := by
  simp only [encode, Nat.min_eq_left fits.cap, take_length, flatMap_def,
    append_assoc]

theorem length_counterBytes (missing : List Nat) :
    ∀ block ∈ missing.map (toBeBytes 8), block.length = 8 := by
  exact forall_mem_map.mpr fun counter _ => length_toBeBytes 8 counter

theorem length_encode (fits : report.Fits) :
    report.encode.length = 14 + report.missing.length * 8 := by
  have counters := length_flatten_blocks (length_counterBytes report.missing)
  rw [length_map] at counters
  rw [encode_of_fits fits]
  simp only [length_append, length_toBeBytes, counters]
  omega

theorem read_counters (missing : List Nat) (bounded : ∀ counter ∈ missing, counter < 2 ^ 64) :
    ((List.range missing.length).map fun i =>
      ofBeBytes (slice (missing.map (toBeBytes 8)).flatten (i * 8) 8)) = missing := by
  apply ext_getElem
  · rw [length_map, length_range]
  · intro i _ inside
    have position : i < (missing.map (toBeBytes 8)).length := by rwa [length_map]
    rw [getElem_map, getElem_range,
      slice_flatten (length_counterBytes missing) position, get_eq_getElem,
      getElem_map, ofBeBytes_toBeBytes]
    exact Nat.mod_eq_of_lt (bounded _ (getElem_mem inside))

theorem decode_encode (fits : report.Fits) : decode report.encode = some report := by
  have length := length_encode fits
  have written := encode_of_fits fits
  have header : report.encode.drop 14 = (report.missing.map (toBeBytes 8)).flatten := by
    rw [written, ← append_assoc, ← append_assoc]
    exact drop_left' (by simp)
  have first : report.encode.take 4 = toBeBytes 4 report.deliveredCount := by
    rw [written]
    exact take_left' (length_toBeBytes 4 _)
  have second : (report.encode.drop 4).take 8 = toBeBytes 8 report.highCounter := by
    rw [written, drop_left' (length_toBeBytes 4 _)]
    exact take_left' (length_toBeBytes 8 _)
  have third : (report.encode.drop 12).take 2 = toBeBytes 2 report.missing.length := by
    rw [written, ← append_assoc, drop_left' (by simp)]
    exact take_left' (length_toBeBytes 2 _)
  have count : ofBeBytes ((report.encode.drop 12).take 2) = report.missing.length := by
    have cap := fits.cap
    rw [third, ofBeBytes_toBeBytes, Nat.mod_eq_of_lt (by rw [maxNack] at cap; omega)]
  have counters : ((range report.missing.length).map fun i =>
      ofBeBytes ((report.encode.drop (14 + i * 8)).take 8)) = report.missing := by
    simp only [← drop_drop, header]
    exact read_counters report.missing fits.missing
  unfold decode
  rw [if_neg (by omega)]
  dsimp only
  rw [count, if_neg (by omega), counters, first, second, ofBeBytes_toBeBytes, ofBeBytes_toBeBytes,
    show 256 ^ 4 = 2 ^ 32 by decide, show 256 ^ 8 = 2 ^ 64 by decide,
    Nat.mod_eq_of_lt fits.deliveredCount, Nat.mod_eq_of_lt fits.highCounter,
    take_of_length_le fits.cap]

theorem take_encode_eq_magic_iff (fits : report.Fits) :
    report.encode.take 2 = magicMtuProbe ↔ report.deliveredCount / 65536 = 0xFF50 := by
  have bound := fits.deliveredCount
  have front : report.encode.take 2 =
      [Byte.ofNat (report.deliveredCount / 256 ^ 3),
        Byte.ofNat (report.deliveredCount / 256 ^ 2)] := by
    rw [encode_of_fits fits]
    rfl
  have digit : ∀ first second, Byte.ofNat first = Byte.ofNat second ↔
      first % 256 = second % 256 := by
    intro first second
    rw [← Byte.toNat_ofNat, ← Byte.toNat_ofNat]
    exact ⟨fun same => same ▸ rfl, Byte.toNat_injective⟩
  rw [front, magicMtuProbe, cons_eq_cons, cons_eq_cons, digit, digit]
  simp only [and_true]
  omega

end LossReport

namespace ControlFrame

/-- The frames the data plane builds. -/
inductive Sendable : ControlFrame → Prop
  | feedback {report : LossReport} (fits : report.Fits) : Sendable (.feedback report)
  | mtuProbe {probeId targetSymbolSize : Nat} (idFits : probeId < 2 ^ 16)
      (sizeFits : targetSymbolSize < 2 ^ 16) :
      Sendable (.mtuProbe probeId targetSymbolSize (List.replicate (targetSymbolSize - 6) 0))
  | mtuProbeAck {probeId acceptedSymbolSize : Nat} (idFits : probeId < 2 ^ 16)
      (sizeFits : acceptedSymbolSize < 2 ^ 16) : Sendable (.mtuProbeAck probeId acceptedSymbolSize)

/-- The frame does not read as one of another kind. -/
def Distinct : ControlFrame → Prop
  | feedback report => report.deliveredCount / 65536 ≠ 0xFF50
  | mtuProbe _ targetSymbolSize _ => 6 ≤ targetSymbolSize
  | mtuProbeAck _ _ => True

theorem decode_feedback_iff {report : LossReport} (fits : report.Fits) :
    decode (feedback report).encode = some (feedback report) ↔ (feedback report).Distinct := by
  have length : 14 ≤ report.encode.length := by
    rw [LossReport.length_encode fits]
    omega
  rw [Distinct, Ne, ← LossReport.take_encode_eq_magic_iff fits]
  unfold decode
  rw [encode]
  by_cases magic : report.encode.take 2 = magicMtuProbe
  · -- taken for a probe, and no probe is a report
    rw [if_pos ⟨by omega, magic⟩]
    constructor
    · intro decoded
      split at decoded <;> cases decoded
    · exact fun distinct => absurd magic distinct
  · rw [if_neg (fun both => magic both.2), if_neg (fun both => by omega),
      LossReport.decode_encode fits]
    exact ⟨fun _ => magic, fun _ => rfl⟩

theorem read_fields (magic : List Byte) (length : magic.length = 2) {first second : Nat}
    (firstFits : first < 2 ^ 16) (secondFits : second < 2 ^ 16) (padding : List Byte) :
    let bytes := magic ++ toBeBytes 2 first ++ toBeBytes 2 second ++ padding
    bytes.length = 6 + padding.length ∧ bytes.take 2 = magic ∧
      ofBeBytes ((bytes.drop 2).take 2) = first ∧ ofBeBytes ((bytes.drop 4).take 2) = second ∧
      bytes.drop 6 = padding := by
  intro bytes
  refine ⟨by simp only [bytes, length_append, length_toBeBytes, length], ?_, ?_, ?_,
    drop_left' (by simp [length])⟩
  · simp only [bytes, append_assoc]
    exact take_left' length
  · simp only [bytes, append_assoc]
    rw [drop_left' length, take_left' (length_toBeBytes 2 _), ofBeBytes_toBeBytes]
    exact Nat.mod_eq_of_lt firstFits
  · simp only [bytes, append_assoc]
    rw [← append_assoc, drop_left' (by simp [length]),
      take_left' (length_toBeBytes 2 _), ofBeBytes_toBeBytes]
    exact Nat.mod_eq_of_lt secondFits

theorem decode_mtuProbe_iff {probeId targetSymbolSize : Nat} (idFits : probeId < 2 ^ 16)
    (sizeFits : targetSymbolSize < 2 ^ 16) :
    let probe := mtuProbe probeId targetSymbolSize (replicate (targetSymbolSize - 6) 0)
    decode probe.encode = some probe ↔ probe.Distinct := by
  intro probe
  obtain ⟨length, magic, id, size, rest⟩ := read_fields magicMtuProbe rfl idFits sizeFits
    (replicate (targetSymbolSize - 6) 0)
  rw [length_replicate] at length
  dsimp only [probe, encode, Distinct]
  generalize magicMtuProbe ++ toBeBytes 2 probeId ++ toBeBytes 2 targetSymbolSize ++
    replicate (targetSymbolSize - 6) 0 = bytes at length magic id size rest ⊢
  unfold decode
  rw [if_pos ⟨by omega, magic⟩]
  simp only [id, size, rest, length]
  by_cases room : 6 ≤ targetSymbolSize
  · rw [if_neg (by omega)]
    exact ⟨fun _ => room, fun _ => rfl⟩
  · rw [if_pos (by omega)]
    exact iff_of_false (Option.some_ne_none _).symm room

theorem decode_mtuProbeAck {probeId acceptedSymbolSize : Nat} (idFits : probeId < 2 ^ 16)
    (sizeFits : acceptedSymbolSize < 2 ^ 16) :
    decode (mtuProbeAck probeId acceptedSymbolSize).encode =
      some (mtuProbeAck probeId acceptedSymbolSize) := by
  obtain ⟨length, magic, id, size, -⟩ := read_fields magicMtuProbeAck rfl idFits sizeFits []
  rw [append_nil] at length magic id size
  rw [encode]
  generalize magicMtuProbeAck ++ toBeBytes 2 probeId ++ toBeBytes 2 acceptedSymbolSize = bytes
    at length magic id size ⊢
  have acknowledges : bytes.take 2 ≠ magicMtuProbe := by
    rw [magic]
    decide
  unfold decode
  dsimp only
  rw [if_neg fun both => acknowledges both.2, if_pos ⟨length, magic⟩, id, size]

/-- Exactly the frames that can be told apart are read back: a report is lost when the high half of
its count is the magic of a probe, and a probe when its size is less than its own six bytes. -/
theorem decode_encode_iff_distinct {frame : ControlFrame} (sendable : frame.Sendable) :
    decode frame.encode = some frame ↔ frame.Distinct := by
  cases sendable with
  | feedback fits => exact decode_feedback_iff fits
  | mtuProbe idFits sizeFits => exact decode_mtuProbe_iff idFits sizeFits
  | mtuProbeAck idFits sizeFits => exact iff_of_true (decode_mtuProbeAck idFits sizeFits) trivial

/-- A report of a hundred deliveries with two missing counters is read back. -/
theorem small_report_survives :
    decode (feedback ⟨100, 5000, [10, 42]⟩).encode = some (feedback ⟨100, 5000, [10, 42]⟩) ↔
      (feedback ⟨100, 5000, [10, 42]⟩).Distinct :=
  decode_encode_iff_distinct (.feedback ⟨by decide, by decide, by decide, by decide⟩)

/-- A report of `0xFF500000` deliveries is not read at all, and with a high counter that names the
right length it is read as a probe. -/
theorem large_count_taken_for_probe :
    (feedback ⟨0xFF500000, 5000, [10, 42]⟩).Sendable ∧
      decode (feedback ⟨0xFF500000, 5000, [10, 42]⟩).encode = none ∧
      (feedback ⟨0xFF500000, 14 * 2 ^ 48, []⟩).Sendable ∧
      decode (feedback ⟨0xFF500000, 14 * 2 ^ 48, []⟩).encode =
        some (mtuProbe 0 14 (List.replicate 8 0)) := by
  refine ⟨.feedback ⟨by decide, by decide, by decide, by decide⟩, by decide +kernel,
    .feedback ⟨by decide, by decide, by decide, by decide⟩, by decide +kernel⟩

end ControlFrame

end Yip.Transport
