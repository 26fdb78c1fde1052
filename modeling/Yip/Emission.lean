/-
This file says what the operations of a data plane do. An operation opens at most one frame and
seals at most one, and nothing else of the session changes. What it sends carries a counter below
the send counter reached, also what is sent again out of the retransmit buffer. On the receiving
side it leaves the reassemblers alone, resizes them together with the path MTU controller, or
pushes the one symbol that has arrived.
-/

import Yip.Inbound
import Yip.Transport.Probing

namespace Yip

open Crypto Transport Wire

/-! ### Sessions and buffers -/

namespace Crypto.Session

def heard (session : Session) (opened : Option Nat) : Session :=
  match opened with
  | none => session
  | some counter => { session with replay := session.replay.commit counter }

def spent (session : Session) (sealing : Bool) : Session :=
  if sealing = true ∧ session.HasRoom then
    { session with sendCounter := session.sendCounter + session.stride }
  else session

theorem spent_false (session : Session) : session.spent false = session :=
  if_neg fun both => Bool.false_ne_true both.1

theorem heard_spent (session : Session) (opened : Option Nat) (sealing : Bool) :
    (session.heard opened).spent sealing = (session.spent sealing).heard opened := by
  cases opened with
  | none => rfl
  | some counter =>
    unfold spent
    change (if sealing = true ∧ session.HasRoom then _ else _) = _
    split <;> rfl

theorem spent_heard_keeps (session : Session) (opened : Option Nat) (sealing : Bool) :
    ((session.spent sealing).heard opened).sendKey = session.sendKey ∧
      ((session.spent sealing).heard opened).recvKey = session.recvKey ∧
      ((session.spent sealing).heard opened).stride = session.stride ∧
      ((session.spent sealing).heard opened).sendCounter =
        if sealing = true ∧ session.HasRoom then session.sendCounter + session.stride
        else session.sendCounter := by
  unfold spent
  cases opened <;> split <;> exact ⟨rfl, rfl, rfl, rfl⟩

variable (aead : Aead) (session : Session)

theorem sealFrame_session (plaintext : List Byte) :
    (session.sealFrame aead plaintext).1 = session.spent true := by
  unfold sealFrame spent HasRoom
  by_cases room : session.sendCounter + session.stride < u64Limit
  · rw [if_pos room, if_pos ⟨rfl, room⟩]
  · rw [if_neg room, if_neg fun both => room both.2]

theorem openFrame_session (counter : Nat) (ciphertext : List Byte) :
    (session.openFrame aead counter ciphertext).1 = session.heard
      (if session.checkReplay counter = true ∧
          (aead.openBytes session.recvKey counter ciphertext).isSome then some counter
        else none) := by
  unfold openFrame checkReplay
  cases session.replay.check counter
  · rfl
  · cases aead.openBytes session.recvKey counter ciphertext <;> rfl

theorem openFrame_toOption (counter : Nat) (ciphertext : List Byte) :
    (session.openFrame aead counter ciphertext).1 = session.heard
      (if (session.openFrame aead counter ciphertext).2.toOption.isSome then some counter
        else none) := by
  rw [openFrame_session, openFrame_snd]
  cases session.checkReplay counter
  · rfl
  · cases aead.openBytes session.recvKey counter ciphertext <;> rfl

end Crypto.Session

namespace Transport.RetxBuffer

theorem mem_evictExpiredFrom (nowMs key : Nat) (buffer : RetxBuffer) (queue : List Nat)
    (member : key ∈ (evictExpiredFrom nowMs buffer queue).map) : key ∈ buffer.map := by
  induction queue generalizing buffer with
  | nil => exact member
  | cons front rest ih =>
    unfold evictExpiredFrom at member
    split at member
    · exact ih _ member
    · split at member
      · exact (AList.mem_erase.mp (ih _ member)).2
      · exact member

theorem mem_evictOldest (key : Nat) (buffer : RetxBuffer)
    (member : key ∈ buffer.evictOldest.map) : key ∈ buffer.map := by
  unfold evictOldest at member
  split at member
  · exact member
  · exact (AList.mem_erase.mp member).2

theorem mem_put (buffer : RetxBuffer) (counter : Nat) (ciphertext : List Byte)
    (flow : FlowClass) (objectId nowMs key : Nat)
    (member : key ∈ (buffer.put counter ciphertext flow objectId nowMs).map) :
    key = counter ∨ key ∈ buffer.map := by
  unfold put at member
  split at member
  · exact Or.inr (AList.mem_replace.mp member)
  · refine (AList.mem_insert _).mp member |>.imp_right fun old => ?_
    split at old
    · exact mem_evictExpiredFrom _ _ _ _ (mem_evictOldest _ _ old)
    · exact mem_evictExpiredFrom _ _ _ _ old

theorem mem_of_get (buffer : RetxBuffer) (counter nowMs : Nat)
    (result : List Byte × FlowClass × Nat) (found : buffer.get counter nowMs = some result) :
    counter ∈ buffer.map := by
  unfold get at found
  obtain ⟨entry, present, -⟩ := Option.bind_eq_some_iff.mp found
  rw [← AList.lookup_isSome, present]
  rfl

end Transport.RetxBuffer

/-! ### What goes out -/

/-- The keys of a data plane, which no event changes. -/
structure Credentials where
  sendKey : Key
  recvKey : Key
  rawSendKey : Key
  rawRecvKey : Key
  authKey : Key
  hpKey : Key
  codec : Codec
  connTag : Nat
  deriving DecidableEq

def heardCounter (sip : Sip) (codec : Codec) (datagram : List Byte) : Option Nat :=
  match datagram with
  | [] => none
  | kind :: body =>
    if kind = PacketType.data.toByte then
      match codec.deframe sip body with
      | .error _ => none
      | .ok frame => (frameToSymbol frame).map fun read => read.2.1
    else if kind = PacketType.control.toByte then
      if body.length < 8 then none else some (ofBeBytes (body.take 8))
    else none

def ReadsBelow (sip : Sip) (codec : Codec) (bound : Nat) (datagram : List Byte) : Prop :=
  ∀ counter ∈ heardCounter sip codec datagram, counter < bound

theorem ReadsBelow.mono {sip : Sip} {codec : Codec} {bound larger : Nat} {datagram : List Byte}
    (below : ReadsBelow sip codec bound datagram) (le : bound ≤ larger) :
    ReadsBelow sip codec larger datagram :=
  fun counter read => (below counter read).trans_le le

namespace DataPlane

variable {env : Primitives} (dp : DataPlane env)

def credentials : Credentials where
  sendKey := dp.session.sendKey
  recvKey := dp.session.recvKey
  rawSendKey := dp.rawSendKey
  rawRecvKey := dp.rawRecvKey
  authKey := dp.authKey
  hpKey := dp.hpKey
  codec := dp.codec
  connTag := dp.connTag

theorem deframe_dataDatagram (symbol : Symbol) (counter : Nat) (flow : FlowClass) :
    ∃ frame, dp.codec.deframe env.sip
        (dp.codec.frame env.sip (symbolToFrame dp.connTag symbol counter flow)) = .ok frame ∧
      frameToSymbol frame = some ({ symbol with
        objectId := symbol.objectId % 256 ^ 2
        objectSize := symbol.objectSize % 256 ^ 4 }, counter % 256 ^ 8, flow) :=
  ⟨_, deframe_frame _ _ _, frameToSymbol_symbolToFrame _ _ _ _⟩

theorem dataDatagram_readsBelow (symbol : Symbol) (counter bound : Nat) (flow : FlowClass)
    (below : counter < bound) :
    ReadsBelow env.sip dp.codec bound (dp.dataDatagram symbol counter flow).bytes := by
  obtain ⟨frame, deframed, read⟩ := dp.deframe_dataDatagram symbol counter flow
  intro heard equal
  simp only [heardCounter, dataDatagram, if_true, deframed, read, Option.map_some,
    Option.mem_some_iff] at equal
  rw [← equal]
  exact (Nat.mod_le _ _).trans_lt below

theorem controlDatagram_readsBelow (counter bound : Nat) (ciphertext : List Byte)
    (below : counter < bound) :
    ReadsBelow env.sip dp.codec bound (dp.controlDatagram counter ciphertext).bytes := by
  intro heard equal
  have notData : PacketType.control.toByte ≠ PacketType.data.toByte := data_ne_control.symm
  simp only [heardCounter, controlDatagram, notData, if_false, if_true, List.length_append,
    length_toBeBytes, Nat.not_lt.mpr (Nat.le_add_right 8 _), Option.mem_some_iff] at equal
  rw [List.take_left' (length_toBeBytes 8 counter), ofBeBytes_toBeBytes] at equal
  rw [← equal]
  exact (Nat.mod_le _ _).trans_lt below

/-! ### Events -/

inductive Event where
  | tun (inner : List Byte) (nowMs : Nat)
  | udp (datagram : List Byte) (nowMs : Nat)
  | tick (nowMs jitter : Nat)
  | readdress (addr : SocketAddr)
  | shard (shardId numShards : Nat)
  | repairRatio (percent : Nat)
  deriving DecidableEq, Repr

def step : Event → DataPlane env
  | .tun inner nowMs => (dp.onTunPacket inner nowMs).1
  | .udp datagram nowMs => (dp.onUdpDatagram datagram nowMs).1
  | .tick nowMs jitter => (dp.tick nowMs jitter).1
  | .readdress addr => dp.setPeerAddr addr
  | .shard shardId numShards => dp.setShard shardId numShards
  | .repairRatio percent => dp.setFecRepairRatio percent

def seals : Event → Bool
  | .tun .. => true
  | .udp datagram _ =>
    match (dp.controlPlaintext datagram).bind ControlFrame.decode with
    | some (.mtuProbe ..) => true
    | some (.feedback _) | some (.mtuProbeAck ..) | none => false
  | .tick nowMs _ =>
    if nowMs - dp.lastFeedbackMs < dp.feedbackIntervalMs then (dp.plpmtu.onTick nowMs).2.isSome
    else true
  | .readdress _ | .shard .. | .repairRatio _ => false

def opens : Event → Option Nat
  | .udp datagram nowMs =>
    if (dp.dataPlaintext datagram nowMs).isSome || (dp.controlPlaintext datagram).isSome then
      heardCounter env.sip dp.codec datagram
    else none
  | .tun .. | .tick .. | .readdress _ | .shard .. | .repairRatio _ => none

def writes : Event → Option Nat
  | .udp datagram nowMs =>
    if (dp.dataPlaintext datagram nowMs).isSome then heardCounter env.sip dp.codec datagram
    else none
  | .tun .. | .tick .. | .readdress _ | .shard .. | .repairRatio _ => none

end DataPlane

def Outcome.datagrams : Outcome → List EgressDatagram
  | none => []
  | tunWrite _ => []
  | send datagrams => datagrams

def Outcome.packets : Outcome → List (List Byte)
  | none => []
  | tunWrite inner => [inner]
  | send _ => []

/-! ### What an operation does -/

/-- What becomes of the receiving side of a transport, next to the size that the path MTU
controller has confirmed. The symbol that is pushed has come under the counter `heard`. -/
inductive Transport.Reshaped {heuristics : Heuristics} (before after : Transport heuristics)
    (confirmed confirmedAfter : Nat) (heard : Option Nat) : Prop
  | keeps (reassemblers : after.reassemblers = before.reassemblers)
      (symbolSize : after.symbolSize = before.symbolSize) (same : confirmedAfter = confirmed)
  | resizes (reassemblers : after.reassemblers = (before.setSymbolSize confirmedAfter).reassemblers)
      (symbolSize : after.symbolSize = confirmedAfter)
  | hears (counter : Nat) (symbol : Symbol) (flow : FlowClass) (nowMs : Nat)
      (isHeard : heard = some counter)
      (reassemblers : after.reassemblers = (before.decode counter symbol flow nowMs).1.reassemblers)
      (symbolSize : after.symbolSize = before.symbolSize) (same : confirmedAfter = confirmed)

theorem Transport.Reshaped.kept {heuristics : Heuristics}
    {before middle after : Transport heuristics} {confirmed between confirmedAfter : Nat}
    {heard : Option Nat} (reshaped : before.Reshaped middle confirmed between heard)
    (reassemblers : after.reassemblers = middle.reassemblers)
    (symbolSize : after.symbolSize = middle.symbolSize) (same : confirmedAfter = between) :
    before.Reshaped after confirmed confirmedAfter heard := by
  subst same
  cases reshaped with
  | keeps sameReassemblers sameSize unconfirmed =>
    exact .keeps (reassemblers.trans sameReassemblers) (symbolSize.trans sameSize) unconfirmed
  | resizes set size => exact .resizes (reassemblers.trans set) (symbolSize.trans size)
  | hears counter symbol flow nowMs isHeard pushed size unconfirmed =>
    exact .hears counter symbol flow nowMs isHeard (reassemblers.trans pushed)
      (symbolSize.trans size) unconfirmed

namespace DataPlane

variable {env : Primitives} (dp : DataPlane env)

/-- The counters behind the send counter: it moves on, and the retransmit buffer holds only what
was sealed. -/
structure Sound : Prop where
  stride : 0 < dp.session.stride
  retx : ∀ counter ∈ dp.retx.map, counter < dp.session.sendCounter

def identity : Key × Key × Key × Key × Codec × Nat :=
  (dp.rawSendKey, dp.rawRecvKey, dp.authKey, dp.hpKey, dp.codec, dp.connTag)

/-- What an operation does that is left with the address `addr`, takes in the symbol with the
counter `heard`, opens the frame with the counter `opened`, seals one or not, and puts out `out`. -/
structure Acts (after : DataPlane env) (addr : SocketAddr) (heard opened : Option Nat)
    (sealing : Bool) (out : List EgressDatagram) : Prop where
  session : after.session = (dp.session.heard opened).spent sealing
  identity : after.identity = dp.identity
  peerAddr : after.peerAddr = addr
  reshaped : dp.transport.Reshaped after.transport dp.plpmtu.confirmedSymbolSize
    after.plpmtu.confirmedSymbolSize heard
  climbing : dp.plpmtu.Climbing → after.plpmtu.Climbing
  retx : dp.Sound → ∀ counter ∈ after.retx.map,
    counter < after.session.sendCounter ∨ counter ∈ dp.retx.map
  below : dp.Sound → ∀ datagram ∈ out,
    ReadsBelow env.sip dp.codec after.session.sendCounter datagram.bytes

variable {dp} {after : DataPlane env} {addr : SocketAddr} {heard opened : Option Nat}
  {sealing : Bool} {out : List EgressDatagram}

section

variable (acts : dp.Acts after addr heard opened sealing out)

include acts

theorem Acts.session_keeps :
    after.session.sendKey = dp.session.sendKey ∧ after.session.recvKey = dp.session.recvKey ∧
      after.session.stride = dp.session.stride ∧ after.session.sendCounter =
        if sealing = true ∧ dp.session.HasRoom then dp.session.sendCounter + dp.session.stride
        else dp.session.sendCounter := by
  rw [acts.session, Session.heard_spent]
  exact dp.session.spent_heard_keeps opened sealing

theorem Acts.credentials : after.credentials = dp.credentials := by
  obtain ⟨sendKey, recvKey, -⟩ := acts.session_keeps
  have identity := acts.identity
  simp only [DataPlane.identity, Prod.mk.injEq] at identity
  simp only [DataPlane.credentials, sendKey, recvKey, identity]

theorem Acts.codec : after.codec = dp.codec := congrArg Credentials.codec acts.credentials

theorem Acts.advances : dp.session.sendCounter ≤ after.session.sendCounter := by
  rw [acts.session_keeps.2.2.2]
  split
  · exact Nat.le_add_right _ _
  · exact le_rfl

theorem Acts.replay :
    after.session.replay = opened.elim dp.session.replay dp.session.replay.commit := by
  rw [acts.session]
  unfold Session.spent
  cases opened <;> split <;> rfl

theorem Acts.sound (sound : dp.Sound) : after.Sound where
  stride := acts.session_keeps.2.2.1.symm ▸ sound.stride
  retx := fun counter member => (acts.retx sound counter member).elim id fun old =>
    (sound.retx counter old).trans_le acts.advances

end

theorem Acts.silent (session : after.session = dp.session.heard opened)
    (identity : after.identity = dp.identity) (peerAddr : after.peerAddr = addr)
    (reshaped : dp.transport.Reshaped after.transport dp.plpmtu.confirmedSymbolSize
      after.plpmtu.confirmedSymbolSize heard)
    (climbing : dp.plpmtu.Climbing → after.plpmtu.Climbing) (retx : after.retx = dp.retx) :
    dp.Acts after addr heard opened false [] :=
  ⟨session.trans (Session.spent_false _).symm, identity, peerAddr, reshaped, climbing,
    fun _ _ member => Or.inr (retx ▸ member), by simp⟩

theorem Acts.refl : dp.Acts dp dp.peerAddr heard none false [] :=
  .silent rfl rfl rfl (.keeps rfl rfl rfl) id rfl

theorem Acts.hearing (acts : dp.Acts after addr none opened sealing out) :
    dp.Acts after addr heard opened sealing out :=
  { acts with
    reshaped := by
      cases acts.reshaped with
      | keeps reassemblers symbolSize same => exact .keeps reassemblers symbolSize same
      | resizes reassemblers symbolSize => exact .resizes reassemblers symbolSize
      | hears _ _ _ _ isHeard => cases isHeard }

theorem Acts.trans {middle : DataPlane env} {other : Option Nat}
    {first second : List EgressDatagram}
    (head : dp.Acts middle addr heard opened false first)
    (tail : middle.Acts after middle.peerAddr other none sealing second)
    (reshaped : dp.transport.Reshaped after.transport dp.plpmtu.confirmedSymbolSize
      after.plpmtu.confirmedSymbolSize heard) :
    dp.Acts after addr heard opened sealing (first ++ second) where
  session := by
    rw [tail.session, head.session, Session.spent_false]
    rfl
  identity := tail.identity.trans head.identity
  peerAddr := tail.peerAddr.trans head.peerAddr
  reshaped := reshaped
  climbing := tail.climbing ∘ head.climbing
  retx := by
    intro sound counter member
    rcases tail.retx (head.sound sound) counter member with sent | kept
    · exact Or.inl sent
    · exact (head.retx sound counter kept).imp_left (·.trans_le tail.advances)
  below := by
    intro sound datagram member
    rcases List.mem_append.mp member with early | late
    · exact (head.below sound datagram early).mono tail.advances
    · rw [← head.codec]
      exact tail.below (head.sound sound) datagram late

variable (body : List Byte) (report : LossReport) (nowMs : Nat) (frame : ControlFrame)
  {middle : DataPlane env}

theorem Acts.continues (head : dp.Acts middle addr heard opened false [])
    (tail : middle.Acts after middle.peerAddr heard none sealing out)
    (transport : middle.transport = dp.transport) (plpmtu : middle.plpmtu = dp.plpmtu) :
    dp.Acts after addr heard opened sealing out :=
  head.trans tail (transport ▸ plpmtu ▸ tail.reshaped)

variable (dp)

/-! ### The operations -/

theorem sealControl_fst :
    (dp.sealControl frame).1 = { dp with session := dp.session.spent true } := by
  rw [← dp.session.sealFrame_session env.aead frame.encode]
  unfold sealControl
  rcases dp.session.sealFrame env.aead frame.encode with ⟨session, _ | _⟩ <;> rfl

theorem sealControl_acts :
    dp.Acts (dp.sealControl frame).1 dp.peerAddr none none true
      (dp.sealControl frame).2.toList := by
  rw [sealControl_fst]
  refine ⟨rfl, rfl, rfl, .keeps rfl rfl rfl, id, fun _ _ => Or.inr, ?_⟩
  unfold sealControl Session.sealFrame Session.spent
  by_cases room : dp.session.sendCounter + dp.session.stride < u64Limit
  · rw [if_pos room, if_pos ⟨rfl, room⟩]
    rintro sound datagram member
    rw [List.mem_singleton.mp member]
    exact dp.controlDatagram_readsBelow _ _ _ (Nat.lt_add_of_pos_right sound.stride)
  · rw [if_neg room]
    simp

variable {dp} in
theorem Acts.then_seals (head : dp.Acts middle addr heard opened false []) (frame : ControlFrame) :
    dp.Acts (middle.sealControl frame).1 addr heard opened true
      (middle.sealControl frame).2.toList := by
  refine head.trans (middle.sealControl_acts frame) ?_
  rw [sealControl_fst]
  exact head.reshaped

theorem onTunPacket_acts (inner : List Byte) (nowMs : Nat) :
    dp.Acts (dp.onTunPacket inner nowMs).1 dp.peerAddr none none true
      (dp.onTunPacket inner nowMs).2 := by
  unfold onTunPacket Session.sealFrame
  by_cases room : dp.session.sendCounter + dp.session.stride < u64Limit
  · rw [if_pos room]
    have readable : dp.Sound → ∀ flow, ∀ symbols : List Symbol,
        ∀ datagram ∈ symbols.map fun symbol => dp.dataDatagram symbol dp.session.sendCounter flow,
          ReadsBelow env.sip dp.codec (dp.session.sendCounter + dp.session.stride)
            datagram.bytes := by
      intro sound flow symbols datagram member
      obtain ⟨symbol, -, rfl⟩ := List.mem_map.mp member
      exact dp.dataDatagram_readsBelow _ _ _ _ (Nat.lt_add_of_pos_right sound.stride)
    dsimp only [remember]
    split
    · exact ⟨(if_pos ⟨rfl, room⟩).symm, rfl, rfl, .keeps rfl rfl rfl, id, fun _ _ => Or.inr,
        fun sound => readable sound _ _⟩
    · refine ⟨(if_pos ⟨rfl, room⟩).symm, rfl, rfl, .keeps rfl rfl rfl, id,
        fun sound counter member => ?_, fun sound => readable sound _ _⟩
      refine (RetxBuffer.mem_put _ _ _ _ _ _ _ member).imp_left ?_
      rintro rfl
      exact Nat.lt_add_of_pos_right sound.stride
  · rw [if_neg room]
    exact ⟨(if_neg fun both => room both.2).symm, rfl, rfl, .keeps rfl rfl rfl, id,
      fun _ _ => Or.inr, by simp⟩

theorem setPeerAddr_acts (addr : SocketAddr) :
    dp.Acts (dp.setPeerAddr addr) addr none none false [] := by
  unfold setPeerAddr
  split
  · exact .silent rfl rfl rfl (.resizes rfl rfl)
      (fun _ => PlpmtuController.Climbing.resetToFloor _) rfl
  · rename_i same
    rw [← not_not.mp same]
    exact .refl

theorem tick_acts (nowMs jitter : Nat) :
    dp.Acts (dp.tick nowMs jitter).1 dp.peerAddr none none (dp.seals (.tick nowMs jitter))
      (dp.tick nowMs jitter).2.toList := by
  simp only [tick, seals]
  split
  · have same := (dp.plpmtu.onTick_spec nowMs).2.2.1
    have climbing := fun climbing : dp.plpmtu.Climbing => climbing.onTick nowMs
    rcases probe : dp.plpmtu.onTick nowMs with
      ⟨plpmtu, _ | ⟨probeId, targetSymbolSize, padLen⟩⟩ <;> rw [probe] at same climbing
    · exact .silent rfl rfl rfl (.keeps rfl rfl same) climbing rfl
    · refine Acts.then_seals ?_ _
      exact .silent rfl rfl rfl (.keeps rfl rfl same) climbing rfl
  · refine Acts.then_seals ?_ _
    exact .silent rfl rfl rfl (.keeps rfl rfl rfl) id rfl

theorem observeClass_reassemblers (transport : Transport env.heuristics) (flow : FlowClass)
    (missing sent : Nat) :
    (observeClass transport flow missing sent).reassemblers = transport.reassemblers := by
  unfold observeClass
  split <;> rfl

theorem observeReport_acts : dp.Acts (dp.observeReport report) dp.peerAddr none none false [] := by
  have observed : ∀ a b c d e f, dp.transport.Reshaped (observeClass (observeClass (observeClass
      dp.transport .realtime a b) .bulk c d) .default e f) dp.plpmtu.confirmedSymbolSize
      dp.plpmtu.confirmedSymbolSize none := by
    intro a b c d e f
    exact .keeps (by simp only [observeClass_reassemblers])
      (by simp only [observeClass_symbolSize]) rfl
  unfold observeReport
  dsimp only
  split
  · have climbing := fun climbing : dp.plpmtu.Climbing => climbing.onBlackhole
    unfold PlpmtuController.onBlackhole at climbing ⊢
    by_cases above : dp.plpmtu.confirmedSymbolSize > plpmtuFloor
    · rw [if_pos above] at climbing ⊢
      refine .silent rfl rfl rfl (.resizes ?_ rfl) climbing rfl
      simp only [Transport.setSymbolSize, observeClass_reassemblers]
      rfl
    · rw [if_neg above]
      exact .silent rfl rfl rfl (observed _ _ _ _ _ _) id rfl
  · exact .silent rfl rfl rfl (observed _ _ _ _ _ _) id rfl

theorem resend_acts (counter nowMs : Nat) :
    dp.Acts (dp.resend counter nowMs).1 dp.peerAddr none none false (dp.resend counter nowMs).2 ∧
      (dp.resend counter nowMs).1.transport.reassemblers = dp.transport.reassemblers ∧
      (dp.resend counter nowMs).1.plpmtu = dp.plpmtu := by
  unfold resend
  cases found : dp.retx.get counter nowMs with
  | none => exact ⟨.refl, rfl, rfl⟩
  | some entry =>
    obtain ⟨ciphertext, flow, objectId⟩ := entry
    dsimp only
    split
    · exact ⟨.refl, rfl, rfl⟩
    · refine ⟨⟨(Session.spent_false _).symm, rfl, rfl, .keeps rfl rfl rfl, id,
        fun _ _ => Or.inr, ?_⟩, rfl, rfl⟩
      intro sound datagram member
      obtain ⟨symbol, -, rfl⟩ := List.mem_map.mp member
      exact dp.dataDatagram_readsBelow _ _ _ _
        (sound.retx counter (RetxBuffer.mem_of_get _ _ _ _ found))

theorem resendAll_acts (missing : List Nat) :
    dp.Acts (dp.resendAll nowMs missing).1 dp.peerAddr none none false
        (dp.resendAll nowMs missing).2 ∧
      (dp.resendAll nowMs missing).1.transport.reassemblers = dp.transport.reassemblers ∧
      (dp.resendAll nowMs missing).1.transport.symbolSize = dp.transport.symbolSize ∧
      (dp.resendAll nowMs missing).1.plpmtu = dp.plpmtu := by
  induction missing generalizing dp with
  | nil => exact ⟨.refl, rfl, rfl, rfl⟩
  | cons counter rest ih =>
    obtain ⟨head, headReassemblers, headPlpmtu⟩ := dp.resend_acts counter nowMs
    obtain ⟨tail, reassemblers, symbolSize, plpmtu⟩ :=
      ih (dp.resend counter nowMs).1
    exact ⟨head.trans tail (head.reshaped.kept reassemblers symbolSize (congrArg _ plpmtu)),
      reassemblers.trans headReassemblers,
      symbolSize.trans (dp.resend_symbolSize counter nowMs), plpmtu.trans headPlpmtu⟩

theorem onFeedback_acts :
    dp.Acts (dp.onFeedback report nowMs).1 dp.peerAddr none none false
      (dp.onFeedback report nowMs).2.datagrams := by
  have observed := dp.observeReport_acts report
  obtain ⟨resent, reassemblers, symbolSize, plpmtu⟩ :=
    (dp.observeReport report).resendAll_acts nowMs report.missing
  have acts := observed.trans resent
    (observed.reshaped.kept reassemblers symbolSize (congrArg _ plpmtu))
  unfold onFeedback
  dsimp only
  split
  · rename_i empty
    rw [empty] at acts
    exact acts
  · exact acts

theorem onMtuProbe_acts (probeId targetSymbolSize : Nat) :
    dp.Acts (dp.onMtuProbe probeId targetSymbolSize).1 dp.peerAddr none none true
      (dp.onMtuProbe probeId targetSymbolSize).2.datagrams := by
  have acts := dp.sealControl_acts (.mtuProbeAck probeId targetSymbolSize)
  unfold onMtuProbe
  rcases ack : dp.sealControl (.mtuProbeAck probeId targetSymbolSize) with
    ⟨after, _ | datagram⟩ <;> rw [ack] at acts <;> exact acts

theorem onMtuProbeAck_acts (probeId acceptedSymbolSize : Nat) :
    dp.Acts (dp.onMtuProbeAck probeId acceptedSymbolSize).1 dp.peerAddr none none false
      (dp.onMtuProbeAck probeId acceptedSymbolSize).2.datagrams := by
  have climbing := fun climbing : dp.plpmtu.Climbing => climbing.onAck probeId acceptedSymbolSize
  unfold onMtuProbeAck
  rcases dp.plpmtu.onAck_cases probeId acceptedSymbolSize with ignored | ⟨_, _, _, _, _, confirmed⟩
  · rw [ignored]
    exact .refl
  · rw [confirmed] at climbing ⊢
    refine .silent rfl rfl rfl (.resizes ?_ ?_) climbing rfl <;> dsimp only <;> split <;> rfl

theorem onControl_acts (counter : Nat) (ciphertext : List Byte) (nowMs : Nat) :
    dp.Acts (dp.onControl counter ciphertext nowMs).1 dp.peerAddr none
      (if (dp.session.openFrame env.aead counter ciphertext).2.toOption.isSome then some counter
        else none)
      (match (dp.session.openFrame env.aead counter ciphertext).2.toOption.bind
          ControlFrame.decode with
        | some (.mtuProbe ..) => true
        | some (.feedback _) | some (.mtuProbeAck ..) | none => false)
      (dp.onControl counter ciphertext nowMs).2.datagrams := by
  have opened := dp.session.openFrame_toOption env.aead counter ciphertext
  unfold onControl
  rcases opening : dp.session.openFrame env.aead counter ciphertext with
    ⟨session, _ | plaintext⟩ <;> rw [opening] at opened
  · exact .silent opened rfl rfl (.keeps rfl rfl rfl) id rfl
  · have head : dp.Acts
        { dp with
          session := session
          detector := (dp.detector.onSeen counter nowMs).onDelivered counter }
        dp.peerAddr none (some counter) false [] :=
      .silent opened rfl rfl (.keeps rfl rfl rfl) id rfl
    simp only [Except.toOption, Option.bind_some, Option.isSome_some, if_true]
    cases ControlFrame.decode plaintext with
    | none => exact head
    | some frame =>
      cases frame with
      | feedback report =>
        exact head.continues (onFeedback_acts _ report nowMs) rfl rfl
      | mtuProbe probeId targetSymbolSize =>
        exact head.continues (onMtuProbe_acts _ probeId targetSymbolSize) rfl rfl
      | mtuProbeAck probeId acceptedSymbolSize =>
        exact head.continues (onMtuProbeAck_acts _ probeId acceptedSymbolSize) rfl rfl

theorem onSymbol_acts (symbol : Symbol) (counter : Nat) (flow : FlowClass) (nowMs : Nat)
    (fresh : dp.session.checkReplay counter = true) :
    dp.Acts (dp.onSymbol symbol counter flow nowMs).1 dp.peerAddr (some counter)
      (if ((dp.transport.decode counter symbol flow nowMs).2.bind
        (env.aead.openBytes dp.session.recvKey counter)).isSome then some counter else none) false
      (dp.onSymbol symbol counter flow nowMs).2.datagrams := by
  have pushed (after : Transport env.heuristics)
      (reassemblers : after.reassemblers =
        (dp.transport.decode counter symbol flow nowMs).1.reassemblers)
      (size : after.symbolSize = dp.transport.symbolSize) : dp.transport.Reshaped after
        dp.plpmtu.confirmedSymbolSize dp.plpmtu.confirmedSymbolSize (some counter) :=
    .hears counter symbol flow nowMs rfl reassemblers size rfl
  unfold onSymbol
  dsimp only
  rcases decoded : dp.transport.decode counter symbol flow nowMs with ⟨transport, _ | ciphertext⟩
  all_goals
    have reassemblers := congrArg (·.1.reassemblers) decoded.symm
    have size := congrArg (·.1.symbolSize) decoded.symm
  · exact .silent rfl rfl rfl (pushed _ reassemblers size) id rfl
  · have opened := dp.session.openFrame_session env.aead counter ciphertext
    simp only [fresh, true_and] at opened
    rw [Option.bind_some]
    dsimp only
    rcases opening : dp.session.openFrame env.aead counter ciphertext with ⟨session, _ | inner⟩ <;>
      rw [opening] at opened <;>
      exact .silent opened rfl rfl (pushed _ reassemblers size) id rfl

variable {dp} in
theorem heardCounter_of_opens {datagram : List Byte} {nowMs counter : Nat}
    (opened : dp.opens (.udp datagram nowMs) = some counter) :
    heardCounter env.sip dp.codec datagram = some counter := by
  simp only [opens] at opened
  split at opened
  · exact opened
  · cases opened

theorem controlPlaintext_data : dp.controlPlaintext (PacketType.data.toByte :: body) = none := by
  rw [controlPlaintext, if_neg fun both => data_ne_control both.1]

theorem controlPlaintext_eq {body : List Byte} (long : ¬body.length < 8) :
    dp.controlPlaintext (PacketType.control.toByte :: body) =
      (dp.session.openFrame env.aead (ofBeBytes (body.take 8)) (body.drop 8)).2.toOption := by
  rw [Session.openFrame_snd]
  simp only [controlPlaintext, Nat.not_lt.mp long, true_and]
  cases dp.session.checkReplay (ofBeBytes (body.take 8))
  · rfl
  · simp only [if_true]
    cases env.aead.openBytes dp.session.recvKey (ofBeBytes (body.take 8)) (body.drop 8) <;> rfl

theorem onData_acts :
    dp.Acts (dp.onData body nowMs).1 dp.peerAddr
      (heardCounter env.sip dp.codec (PacketType.data.toByte :: body))
      (dp.opens (.udp (PacketType.data.toByte :: body) nowMs)) false
      (dp.onData body nowMs).2.datagrams := by
  simp only [onData, opens, controlPlaintext_data, dataPlaintext, heardCounter, if_true,
    Option.isSome_none, Bool.or_false]
  cases dp.codec.deframe env.sip body with
  | error reason => exact .refl
  | ok frame =>
    rcases read : frameToSymbol frame with _ | ⟨symbol, counter, flow⟩
    · simp only [read]
      exact .refl
    · simp only [read]
      cases fresh : dp.session.checkReplay counter
      · exact .refl
      · exact dp.onSymbol_acts symbol counter flow nowMs fresh

theorem onUdpDatagram_acts_of_ne {kind : Byte} (isData : kind ≠ PacketType.data.toByte)
    (body : List Byte) (nowMs : Nat) :
    dp.Acts (dp.onUdpDatagram (kind :: body) nowMs).1 dp.peerAddr none
      (dp.opens (.udp (kind :: body) nowMs)) (dp.seals (.udp (kind :: body) nowMs))
      (dp.onUdpDatagram (kind :: body) nowMs).2.datagrams := by
  have notData : dp.dataPlaintext (kind :: body) nowMs = none := by
    rw [dataPlaintext, if_neg isData]
  by_cases control : kind = PacketType.control.toByte ∧ ¬body.length < 8
  · obtain ⟨rfl, long⟩ := control
    simp only [onUdpDatagram, seals, opens, notData, heardCounter, if_neg isData, if_true,
      if_neg long, Option.isSome_none, Bool.false_or, dp.controlPlaintext_eq long]
    exact dp.onControl_acts _ _ nowMs
  · have unread : dp.controlPlaintext (kind :: body) = none := by
      rw [controlPlaintext, if_neg fun both => control ⟨both.1, Nat.not_lt.mpr both.2.1⟩]
    simp only [onUdpDatagram, seals, opens, notData, unread, if_neg isData]
    split
    · rename_i isControl
      rw [if_pos (not_not.mp fun long => control ⟨isControl, long⟩)]
      exact .refl
    · exact .refl

theorem onUdpDatagram_acts (datagram : List Byte) (nowMs : Nat) :
    dp.Acts (dp.onUdpDatagram datagram nowMs).1 dp.peerAddr
      (heardCounter env.sip dp.codec datagram) (dp.opens (.udp datagram nowMs))
      (dp.seals (.udp datagram nowMs)) (dp.onUdpDatagram datagram nowMs).2.datagrams := by
  rcases datagram with _ | ⟨kind, body⟩
  · exact .refl
  by_cases isData : kind = PacketType.data.toByte
  · subst isData
    exact dp.onData_acts body nowMs
  · exact (dp.onUdpDatagram_acts_of_ne isData body nowMs).hearing

/-! ### Steps -/

theorem opens_of_writes {event : Event} {counter : Nat} (written : dp.writes event = some counter) :
    dp.opens event = some counter := by
  cases event with
  | udp datagram nowMs =>
    simp only [writes] at written
    split at written
    · rename_i complete
      simp only [opens, complete, Bool.true_or, if_true]
      exact written
    · cases written
  | tun | tick | readdress | shard | repairRatio => cases written

variable (event : Event)

theorem step_acts :
    ∃ addr heard out,
      dp.Acts (dp.step event) addr heard (dp.opens event) (dp.seals event) out := by
  cases event with
  | tun inner nowMs => exact ⟨_, _, _, dp.onTunPacket_acts inner nowMs⟩
  | udp datagram nowMs => exact ⟨_, _, _, dp.onUdpDatagram_acts datagram nowMs⟩
  | tick nowMs jitter => exact ⟨_, _, _, dp.tick_acts nowMs jitter⟩
  | readdress addr => exact ⟨_, _, _, dp.setPeerAddr_acts addr⟩
  | shard | repairRatio =>
    exact ⟨_, none, [], .silent rfl rfl rfl (.keeps rfl rfl rfl) id rfl⟩

theorem step_sendCounter :
    (dp.step event).session.stride = dp.session.stride ∧
      (dp.step event).session.sendCounter =
        if dp.seals event = true ∧ dp.session.HasRoom then
          dp.session.sendCounter + dp.session.stride
        else dp.session.sendCounter := by
  obtain ⟨_, _, _, acts⟩ := dp.step_acts event
  exact acts.session_keeps.2.2

theorem step_replay :
    (dp.step event).session.replay =
      (dp.opens event).elim dp.session.replay dp.session.replay.commit := by
  obtain ⟨_, _, _, acts⟩ := dp.step_acts event
  exact acts.replay

theorem step_credentials : (dp.step event).credentials = dp.credentials := by
  obtain ⟨_, _, _, acts⟩ := dp.step_acts event
  exact acts.credentials

theorem checkReplay_of_opens {event : Event} {counter : Nat}
    (opened : dp.opens event = some counter) : dp.session.checkReplay counter = true := by
  cases event with
  | tun | tick | readdress | shard | repairRatio => cases opened
  | udp datagram nowMs =>
    simp only [opens] at opened
    split at opened
    · rename_i complete
      rcases datagram with _ | ⟨kind, body⟩
      · cases opened
      by_cases isData : kind = PacketType.data.toByte
      · subst isData
        simp only [dataPlaintext, heardCounter, if_true] at complete opened
        split at opened
        · cases opened
        · rename_i frame deframed
          obtain ⟨⟨symbol, heard, flow⟩, read, rfl⟩ := Option.map_eq_some_iff.mp opened
          simp only [deframed, read] at complete
          by_contra stale
          rw [if_neg stale] at complete
          cases complete
      · simp only [dataPlaintext, if_neg isData, Option.isSome_none, Bool.false_or,
          controlPlaintext] at complete
        by_cases readable : kind = PacketType.control.toByte ∧ 8 ≤ body.length ∧
            dp.session.checkReplay (ofBeBytes (body.take 8)) = true
        · simp only [heardCounter, if_neg isData, if_pos readable.1,
            if_neg (Nat.not_lt.mpr readable.2.1), Option.some.injEq] at opened
          rw [← opened]
          exact readable.2.2
        · rw [if_neg readable] at complete
          cases complete
    · cases opened

end DataPlane

end Yip
