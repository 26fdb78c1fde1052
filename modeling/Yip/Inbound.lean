/-
This file says what a received datagram makes the data plane put out.
-/

import Yip.DataPlane

namespace Yip

open Crypto Transport Wire

theorem Crypto.Session.openFrame_snd (aead : Aead) (session : Session) (counter : Nat)
    (ciphertext : List Byte) :
    (session.openFrame aead counter ciphertext).2 =
      if session.checkReplay counter then
        match aead.openBytes session.recvKey counter ciphertext with
        | none => .error .decrypt
        | some plain => .ok plain
      else .error .replay := by
  unfold Session.openFrame Session.checkReplay
  cases session.replay.check counter
  · rfl
  · cases aead.openBytes session.recvKey counter ciphertext <;> rfl

theorem Transport.FecEncoder.build_ne_nil_iff (ciphertext : List Byte) (params : FlowParams)
    (objectId repair : Nat) :
    FecEncoder.build ciphertext params objectId repair ≠ [] ↔
      0 < sourceCount ciphertext.length params.symbolSize ∧
        sourceCount ciphertext.length params.symbolSize < 255 := by
  unfold FecEncoder.build
  by_cases zero : params.symbolSize = 0
  · simp [zero, sourceCount]
  rw [if_neg zero]
  by_cases outside : sourceCount ciphertext.length params.symbolSize = 0 ∨
      sourceCount ciphertext.length params.symbolSize ≥ 255
  · rw [if_pos outside]
    simp only [ne_eq, not_true_eq_false, false_iff]
    omega
  · rw [if_neg outside]
    split
    · simp only [ne_eq, reduceCtorEq, not_false_eq_true, true_iff]
      omega
    · simp only [ne_eq, List.append_eq_nil_iff, List.mapIdx_eq_nil_iff, not_and]
      refine ⟨fun _ => by omega, fun _ empty => ?_⟩
      have length := congrArg List.length empty
      simp [splitSource] at length
      omega

namespace DataPlane

variable {env : Primitives} (dp : DataPlane env)

/-! ### What a datagram opens to -/

def controlPlaintext (datagram : List Byte) : Option (List Byte) :=
  match datagram with
  | [] => none
  | kind :: body =>
    if kind = PacketType.control.toByte ∧ 8 ≤ body.length ∧
        dp.session.checkReplay (ofBeBytes (body.take 8)) = true then
      env.aead.openBytes dp.session.recvKey (ofBeBytes (body.take 8)) (body.drop 8)
    else none

def dataPlaintext (datagram : List Byte) (nowMs : Nat) : Option (List Byte) :=
  match datagram with
  | [] => none
  | kind :: body =>
    if kind = PacketType.data.toByte then
      match dp.codec.deframe env.sip body with
      | .error _ => none
      | .ok frame =>
        match frameToSymbol frame with
        | none => none
        | some (symbol, counter, flow) =>
          if dp.session.checkReplay counter then
            (dp.transport.decode counter symbol flow nowMs).2.bind
              (env.aead.openBytes dp.session.recvKey counter)
          else none
    else none

variable (counter nowMs : Nat) (report : LossReport)

def sizeAfterReport (report : LossReport) : Nat :=
  if (severeLoss (dp.missingOf report .default) (dp.sentOf report .default) ||
      severeLoss (dp.missingOf report .bulk) (dp.sentOf report .bulk)) = true ∧
      dp.plpmtu.confirmedSymbolSize > plpmtuFloor then plpmtuFloor
  else dp.transport.symbolSize

def Resendable (symbolSize counter nowMs : Nat) : Prop :=
  ∃ ciphertext flow objectId, dp.retx.get counter nowMs = some (ciphertext, flow, objectId) ∧
    flow.params.arq = true ∧ 0 < sourceCount ciphertext.length symbolSize ∧
    sourceCount ciphertext.length symbolSize < 255

def Answers (plaintext : List Byte) (nowMs : Nat) : Prop :=
  match ControlFrame.decode plaintext with
  | none => False
  | some (.feedback report) =>
    ∃ counter ∈ report.missing, dp.Resendable (dp.sizeAfterReport report) counter nowMs
  | some (.mtuProbe _ _ _) => dp.session.sendCounter + dp.session.stride < u64Limit
  | some (.mtuProbeAck _ _) => False

/-! ### Resending -/

theorem observeClass_symbolSize (transport : Transport env.heuristics) (flow : FlowClass)
    (missing sent : Nat) :
    (observeClass transport flow missing sent).symbolSize = transport.symbolSize := by
  unfold observeClass
  split <;> rfl

theorem observeReport_retx : (dp.observeReport report).retx = dp.retx := by
  unfold observeReport
  dsimp only
  split
  · split <;> rfl
  · rfl

theorem observeReport_symbolSize :
    (dp.observeReport report).transport.symbolSize = dp.sizeAfterReport report := by
  unfold observeReport sizeAfterReport
  by_cases severe : (severeLoss (dp.missingOf report .default) (dp.sentOf report .default) ||
      severeLoss (dp.missingOf report .bulk) (dp.sentOf report .bulk)) = true
  · rw [if_pos severe]
    by_cases above : dp.plpmtu.confirmedSymbolSize > plpmtuFloor
    · rw [if_pos ⟨severe, above⟩, PlpmtuController.onBlackhole, if_pos above]
      rfl
    · rw [if_neg (fun both => above both.2), PlpmtuController.onBlackhole, if_neg above]
      simp only [observeClass_symbolSize]
  · rw [if_neg severe, if_neg (fun both => severe both.1)]
    simp only [observeClass_symbolSize]

theorem resend_retx : (dp.resend counter nowMs).1.retx = dp.retx := by
  unfold resend
  split
  · rfl
  · split <;> rfl

theorem resend_symbolSize :
    (dp.resend counter nowMs).1.transport.symbolSize = dp.transport.symbolSize := by
  unfold resend
  split
  · rfl
  · split <;> rfl

theorem resend_ne_nil_iff :
    (dp.resend counter nowMs).2 ≠ [] ↔
      dp.Resendable dp.transport.symbolSize counter nowMs := by
  unfold resend Resendable
  cases found : dp.retx.get counter nowMs with
  | none => simp
  | some entry =>
    obtain ⟨ciphertext, flow, objectId⟩ := entry
    cases arq : flow.params.arq
    · simp [arq]
    · simp only [arq, Bool.not_true, Bool.false_eq_true, if_false, ne_eq, List.map_eq_nil_iff,
        Option.some.injEq, Prod.mk.injEq]
      rw [← ne_eq, Transport.repairObject, FecEncoder.repairWithId, FecEncoder.build_ne_nil_iff]
      constructor
      · exact fun shape => ⟨_, _, _, ⟨rfl, rfl, rfl⟩, arq, shape⟩
      · rintro ⟨_, _, _, ⟨rfl, rfl, rfl⟩, -, shape⟩
        exact shape

theorem resendAll_ne_nil_iff (nowMs : Nat) (missing : List Nat) :
    (dp.resendAll nowMs missing).2 ≠ [] ↔
      ∃ counter ∈ missing, dp.Resendable dp.transport.symbolSize counter nowMs := by
  induction missing generalizing dp with
  | nil => simp [resendAll]
  | cons counter rest ih =>
    have later : ∀ other, (dp.resend counter nowMs).1.Resendable
        (dp.resend counter nowMs).1.transport.symbolSize other nowMs ↔
          dp.Resendable dp.transport.symbolSize other nowMs := by
      intro other
      rw [Resendable, resend_retx, resend_symbolSize]
      rfl
    have cut : (dp.resendAll nowMs (counter :: rest)).2 = (dp.resend counter nowMs).2 ++
        ((dp.resend counter nowMs).1.resendAll nowMs rest).2 := rfl
    rw [cut, ne_eq, List.append_eq_nil_iff, not_and_or, ← ne_eq, ← ne_eq, resend_ne_nil_iff,
      ih]
    simp only [later, List.mem_cons, exists_eq_or_imp]

/-! ### Outcomes -/

theorem sealControl_snd (frame : ControlFrame) :
    (dp.sealControl frame).2 ≠ none ↔
      dp.session.sendCounter + dp.session.stride < u64Limit := by
  unfold sealControl Session.sealFrame
  by_cases room : dp.session.sendCounter + dp.session.stride < u64Limit
  · rw [if_pos room]
    simp [room]
  · rw [if_neg room]
    simp [room]

theorem onFeedback_snd (nowMs : Nat) :
    (dp.onFeedback report nowMs).2 ≠ .none ↔
      ∃ counter ∈ report.missing, dp.Resendable (dp.sizeAfterReport report) counter nowMs := by
  have resent := resendAll_ne_nil_iff (dp.observeReport report) nowMs report.missing
  simp only [Resendable, observeReport_retx, observeReport_symbolSize] at resent
  have outcome : (dp.onFeedback report nowMs).2 =
      if ((dp.observeReport report).resendAll nowMs report.missing).2 = [] then .none
      else .send ((dp.observeReport report).resendAll nowMs report.missing).2 := rfl
  rw [outcome]
  simp only [Resendable]
  rw [← resent]
  split
  · rename_i empty
    simp [empty]
  · rename_i nonempty
    simp [nonempty]

theorem onMtuProbe_snd (probeId targetSymbolSize : Nat) :
    (dp.onMtuProbe probeId targetSymbolSize).2 ≠ .none ↔
      dp.session.sendCounter + dp.session.stride < u64Limit := by
  rw [← sealControl_snd dp (.mtuProbeAck probeId targetSymbolSize)]
  unfold onMtuProbe
  split
  · rename_i equal
    simp [equal]
  · rename_i equal
    simp [equal]

theorem onMtuProbeAck_snd (probeId acceptedSymbolSize : Nat) :
    (dp.onMtuProbeAck probeId acceptedSymbolSize).2 = .none := by
  unfold onMtuProbeAck
  split <;> rfl

theorem onControl_snd (counter : Nat) (ciphertext plaintext : List Byte) (nowMs : Nat)
    (opened : (dp.session.openFrame env.aead counter ciphertext).2 = .ok plaintext) :
    (dp.onControl counter ciphertext nowMs).2 ≠ .none ↔ dp.Answers plaintext nowMs := by
  have sendCounter := Session.openFrame_sendCounter env.aead dp.session counter ciphertext
  have stride : (dp.session.openFrame env.aead counter ciphertext).1.stride =
      dp.session.stride := by
    unfold Session.openFrame
    split
    · rfl
    · split <;> rfl
  unfold onControl Answers
  rcases result : dp.session.openFrame env.aead counter ciphertext with ⟨session, outcome⟩
  rw [result] at opened sendCounter stride
  obtain rfl : outcome = .ok plaintext := opened
  dsimp only
  rcases ControlFrame.decode plaintext with _ | frame
  · simp
  cases frame with
  | feedback report => exact onFeedback_snd _ report nowMs
  | mtuProbe probeId targetSymbolSize padding =>
    refine (onMtuProbe_snd _ probeId targetSymbolSize).trans ?_
    rw [sendCounter, stride]
  | mtuProbeAck probeId acceptedSymbolSize =>
    simp only [onControlFrame, onMtuProbeAck_snd, ne_eq, not_true_eq_false]

theorem onControl_snd_of_error (counter : Nat) (ciphertext : List Byte) (nowMs : Nat)
    (error : CryptoError)
    (failed : (dp.session.openFrame env.aead counter ciphertext).2 = .error error) :
    (dp.onControl counter ciphertext nowMs).2 = .none := by
  unfold onControl
  rcases result : dp.session.openFrame env.aead counter ciphertext with ⟨session, outcome⟩
  rw [result] at failed
  obtain rfl : outcome = .error error := failed
  rfl

theorem onSymbol_snd (symbol : Symbol) (counter : Nat) (flow : FlowClass) (nowMs : Nat)
    (fresh : dp.session.checkReplay counter = true) :
    (dp.onSymbol symbol counter flow nowMs).2 =
      match (dp.transport.decode counter symbol flow nowMs).2.bind
        (env.aead.openBytes dp.session.recvKey counter) with
      | none => .none
      | some inner => .tunWrite inner := by
  unfold onSymbol
  dsimp only
  rcases decoded : dp.transport.decode counter symbol flow nowMs with ⟨transport, _ | ciphertext⟩
  · rfl
  · have opened := Session.openFrame_snd env.aead dp.session counter ciphertext
    rw [if_pos fresh] at opened
    dsimp only [Option.bind_some]
    rcases result : dp.session.openFrame env.aead counter ciphertext with ⟨session, outcome⟩
    rw [result] at opened
    subst opened
    cases env.aead.openBytes dp.session.recvKey counter ciphertext <;> rfl

theorem data_ne_control : PacketType.data.toByte ≠ PacketType.control.toByte := by decide

theorem dataPlaintext_of_control (other : DataPlane env) (datagram : List Byte) (nowMs : Nat)
    (control : dp.controlPlaintext datagram ≠ none) :
    other.dataPlaintext datagram nowMs = none := by
  rcases datagram with _ | ⟨kind, body⟩
  · rfl
  · rw [dataPlaintext, if_neg]
    rintro rfl
    rw [controlPlaintext, if_neg (fun all => data_ne_control all.1)] at control
    exact control rfl

theorem onUdpDatagram_snd (datagram : List Byte) (nowMs : Nat) :
    (dp.onUdpDatagram datagram nowMs).2 ≠ .none ↔
      (dp.dataPlaintext datagram nowMs ≠ none ∨
        ∃ plaintext, dp.controlPlaintext datagram = some plaintext ∧
          dp.Answers plaintext nowMs) := by
  rcases datagram with _ | ⟨kind, body⟩
  · simp [onUdpDatagram, dataPlaintext, controlPlaintext]
  by_cases isData : kind = PacketType.data.toByte
  · subst isData
    have notControl : dp.controlPlaintext (PacketType.data.toByte :: body) = none := by
      rw [controlPlaintext, if_neg (fun all => data_ne_control all.1)]
    simp only [notControl, reduceCtorEq, false_and, exists_false, or_false]
    unfold onUdpDatagram dataPlaintext onData
    simp only [if_true]
    rcases dp.codec.deframe env.sip body with _ | frame
    · simp
    dsimp only
    rcases frameToSymbol frame with _ | ⟨symbol, counter, flow⟩
    · simp
    dsimp only
    cases fresh : dp.session.checkReplay counter
    · simp
    · simp only [Bool.not_true, Bool.false_eq_true, if_false, if_true,
        onSymbol_snd dp _ _ _ _ fresh]
      cases (dp.transport.decode counter symbol flow nowMs).2.bind
        (env.aead.openBytes dp.session.recvKey counter) <;> simp
  · have notData : dp.dataPlaintext (kind :: body) nowMs = none := by
      rw [dataPlaintext, if_neg isData]
    simp only [notData, ne_eq, not_true_eq_false, false_or]
    unfold onUdpDatagram controlPlaintext
    dsimp only
    rw [if_neg isData]
    by_cases isControl : kind = PacketType.control.toByte
    · rw [if_pos isControl]
      by_cases short : body.length < 8
      · simp [short]
      · rw [if_neg short]
        have opened := Session.openFrame_snd env.aead dp.session (ofBeBytes (body.take 8))
          (body.drop 8)
        by_cases fresh : dp.session.checkReplay (ofBeBytes (body.take 8)) = true
        · rw [if_pos fresh] at opened
          rw [if_pos ⟨isControl, not_lt.mp short, fresh⟩]
          cases plain : env.aead.openBytes dp.session.recvKey (ofBeBytes (body.take 8))
              (body.drop 8) with
          | none =>
            rw [plain] at opened
            simp [onControl_snd_of_error dp _ _ nowMs _ opened]
          | some plaintext =>
            rw [plain] at opened
            simpa using onControl_snd dp _ _ _ nowMs opened
        · rw [if_neg fresh] at opened
          rw [if_neg (fun all => fresh all.2.2)]
          simp [onControl_snd_of_error dp _ _ nowMs _ opened]
    · rw [if_neg isControl, if_neg (fun all => isControl all.1)]
      simp

/-! ### Foreign datagrams -/

def Foreign (datagram : List Byte) : Prop :=
  match datagram with
  | [] => True
  | kind :: body =>
    (kind = PacketType.data.toByte → (dp.codec.deframe env.sip body).toOption = none) ∧
      (kind = PacketType.control.toByte → 8 ≤ body.length →
        env.aead.openBytes dp.session.recvKey (ofBeBytes (body.take 8)) (body.drop 8) = none)

instance (datagram : List Byte) : Decidable (dp.Foreign datagram) := by
  unfold Foreign
  split <;> infer_instance

theorem openFrame_of_unopened (aead : Aead) (session : Session) (counter : Nat)
    (ciphertext : List Byte) (unopened : aead.openBytes session.recvKey counter ciphertext = none) :
    ∃ error, session.openFrame aead counter ciphertext = (session, .error error) := by
  unfold Session.openFrame
  split
  · exact ⟨_, rfl⟩
  · rw [unopened]
    exact ⟨_, rfl⟩

variable {dp}

theorem onUdpDatagram_of_foreign {datagram : List Byte} (foreign : dp.Foreign datagram)
    (nowMs : Nat) : dp.onUdpDatagram datagram nowMs = (dp, .none) := by
  rcases datagram with _ | ⟨kind, body⟩
  · rfl
  obtain ⟨undeframed, unopened⟩ := foreign
  unfold onUdpDatagram
  dsimp only
  split
  · rename_i isData
    have rejected := undeframed isData
    unfold onData
    cases deframed : dp.codec.deframe env.sip body with
    | error => rfl
    | ok frame =>
      rw [deframed] at rejected
      cases rejected
  · split
    · rename_i isControl
      split
      · rfl
      · rename_i long
        obtain ⟨error, opened⟩ := openFrame_of_unopened env.aead dp.session _ _
          (unopened isControl (not_lt.mp long))
        rw [onControl, opened]
    · rfl

end DataPlane

end Yip
