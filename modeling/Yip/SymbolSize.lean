/-
This file is about the symbol size of two data planes that talk to each other.
-/

import Yip.Conversation

namespace Yip

open Crypto Transport Wire List

/-! ### One packet -/

def SizesAgree (objectSize first second : Nat) : Prop :=
  first = second ∨ objectSize ≤ first ∧ objectSize ≤ second

instance (objectSize first second : Nat) : Decidable (SizesAgree objectSize first second) :=
  inferInstanceAs (Decidable (_ ∨ _))

theorem Transport.codingFor_agree (objectSize first second repair : Nat) (params : FlowParams)
    (nonempty : 0 < objectSize) (agree : SizesAgree objectSize first second) :
    codingFor objectSize { params with symbolSize := first } repair =
      codingFor objectSize { params with symbolSize := second } repair := by
  rcases agree with rfl | ⟨fitsFirst, fitsSecond⟩
  · rfl
  · have oneFirst := (sourceCount_eq_one_iff objectSize first nonempty (by omega)).mpr fitsFirst
    have oneSecond := (sourceCount_eq_one_iff objectSize second nonempty (by omega)).mpr fitsSecond
    simp only [codingFor, shardLen, oneFirst, oneSecond, min_eq_left fitsFirst,
      min_eq_left fitsSecond]

namespace DataPlane

variable {env : Primitives} (dp : DataPlane env)

def flowOf (inner : List Byte) (nowMs : Nat) : FlowClass :=
  (env.heuristics.classify dp.transport.classifier inner dp.l2 nowMs).2

theorem onTunPacket_datagrams (inner : List Byte) (nowMs : Nat)
    (encoded : (dp.onTunPacket inner nowMs).2 ≠ []) :
    dp.session.sendCounter < u64Limit ∧ ∃ objectId repair,
      (dp.onTunPacket inner nowMs).2 =
        (FecEncoder.build (env.aead.sealBytes dp.session.sendKey dp.session.sendCounter inner)
          (dp.transport.paramsFor (dp.flowOf inner nowMs)) objectId repair).map fun symbol =>
            dp.dataDatagram symbol dp.session.sendCounter (dp.flowOf inner nowMs) := by
  unfold onTunPacket Session.sealFrame at encoded ⊢
  by_cases room : dp.session.sendCounter + dp.session.stride < u64Limit
  · rw [if_pos room] at encoded ⊢
    exact ⟨by omega, _, _, rfl⟩
  · rw [if_neg room] at encoded
    exact absurd rfl encoded

theorem onTunPacket_cut (lawful : env.aead.Lawful) (inner : List Byte) (nowMs : Nat)
    (other : Transport env.heuristics) (encoded : (dp.onTunPacket inner nowMs).2 ≠ [])
    (small : inner.length + 16 ≤ maxObjectSize)
    (agree : SizesAgree (inner.length + 16) dp.transport.symbolSize other.symbolSize) :
    ∃ parcel : Parcel, parcel.symbolSize = other.symbolSize ∧
      env.aead.openBytes dp.session.sendKey dp.session.sendCounter parcel.ciphertext = some inner ∧
      (dp.onTunPacket inner nowMs).2 = (List.range parcel.count).map fun index =>
        dp.dataDatagram (parcel.symbol index) dp.session.sendCounter (dp.flowOf inner nowMs) := by
  obtain ⟨-, objectId, repair, datagrams⟩ := dp.onTunPacket_datagrams inner nowMs encoded
  rw [datagrams] at encoded ⊢
  have length := lawful.length_seal dp.session.sendKey dp.session.sendCounter inner
  have opens := lawful.open_seal dp.session.sendKey dp.session.sendCounter inner
  generalize env.aead.sealBytes dp.session.sendKey dp.session.sendCounter inner = ciphertext at *
  generalize dp.flowOf inner nowMs = flow at *
  rw [← length] at agree small
  have nonempty : 0 < ciphertext.length := by omega
  obtain ⟨some, room⟩ := (FecEncoder.build_ne_nil_iff ciphertext _ objectId repair).mp
    (fun empty => encoded (by rw [empty]; rfl))
  have positive : 0 < (dp.transport.paramsFor flow).symbolSize := by
    by_contra zero
    rw [Nat.eq_zero_of_not_pos zero, sourceCount, if_pos rfl] at some
    exact lt_irrefl _ some
  have otherPositive : 0 < (other.paramsFor flow).symbolSize := by
    show 0 < other.symbolSize
    rcases agree with same | ⟨-, fits⟩
    · exact same ▸ positive
    · exact nonempty.trans_le fits
  have coding : codingFor ciphertext.length (dp.transport.paramsFor flow) repair =
      codingFor ciphertext.length (other.paramsFor flow) repair :=
    codingFor_agree _ _ _ _ flow.params nonempty agree
  obtain ⟨parcel, rfl, -, size, -, built⟩ :=
    exists_parcel objectId nonempty small positive room otherPositive coding
  exact ⟨parcel, size, opens, by rw [built, map_map]; rfl⟩

theorem onUdpDatagram_data (sender : DataPlane env) (codec : sender.codec = dp.codec)
    (symbol : Symbol) (counter : Nat) (flow : FlowClass) (nowMs : Nat)
    (counterFits : counter < u64Limit) (sizeFits : symbol.objectSize < 2 ^ 32) :
    dp.onUdpDatagram (sender.dataDatagram symbol counter flow).bytes nowMs =
      if dp.session.checkReplay counter then
        dp.onSymbol { symbol with objectId := symbol.objectId % 256 ^ 2 } counter flow nowMs
      else (dp, .none) := by
  obtain ⟨frame, deframed, read⟩ := sender.deframe_dataDatagram symbol counter flow
  rw [codec] at deframed
  rw [Nat.mod_eq_of_lt (show symbol.objectSize < 256 ^ 4 from sizeFits),
    Nat.mod_eq_of_lt (show counter < 256 ^ 8 from counterFits)] at read
  simp only [onUdpDatagram, dataDatagram, codec, if_true, onData, deframed, read]
  cases dp.session.checkReplay counter <;> rfl

section

variable (symbol : Symbol) (counter : Nat) (flow : FlowClass) (nowMs : Nat)

include symbol counter flow nowMs

theorem onSymbol_reassemblers :
    (dp.onSymbol symbol counter flow nowMs).1.transport.reassemblers =
      (dp.transport.decode counter symbol flow nowMs).1.reassemblers := by
  unfold onSymbol
  dsimp only
  rcases dp.transport.decode counter symbol flow nowMs with ⟨transport, _ | ciphertext⟩
  · rfl
  · dsimp only
    rcases dp.session.openFrame env.aead counter ciphertext with ⟨session, _ | inner⟩ <;> rfl

theorem onSymbol_reassembler :
    (dp.onSymbol symbol counter flow nowMs).1.transport.reassembler flow =
      ((dp.transport.reassembler flow).push counter symbol nowMs flow.params.deadlineMs).1 := by
  rw [Transport.reassembler, dp.onSymbol_reassemblers symbol counter flow nowMs]
  simp only [Transport.decode, if_true, Option.getD_some]
  rfl

theorem onSymbol_replay
    (incomplete : ((dp.transport.reassembler flow).push counter symbol nowMs
      flow.params.deadlineMs).2 = none) :
    (dp.onSymbol symbol counter flow nowMs).1.session.replay = dp.session.replay := by
  have decoded : (dp.transport.decode counter symbol flow nowMs).2 = none := incomplete
  unfold onSymbol
  dsimp only
  rcases result : dp.transport.decode counter symbol flow nowMs with ⟨transport, _ | ciphertext⟩
  · rfl
  · rw [result] at decoded
    cases decoded

end

theorem onControl_packets (counter : Nat) (ciphertext : List Byte) (nowMs : Nat) :
    (dp.onControl counter ciphertext nowMs).2.packets = [] := by
  unfold onControl
  rcases dp.session.openFrame env.aead counter ciphertext with ⟨session, _ | plaintext⟩
  · rfl
  · dsimp only
    split
    · rfl
    · rename_i frame _
      cases frame with
      | feedback report =>
        simp only [onControlFrame, onFeedback]
        split <;> rfl
      | mtuProbe probeId targetSymbolSize padding =>
        simp only [onControlFrame, onMtuProbe]
        split <;> rfl
      | mtuProbeAck probeId acceptedSymbolSize =>
        simp only [onControlFrame, onMtuProbeAck_snd]
        rfl

end DataPlane

section Packet

variable {env : Primitives} (parcel : Parcel) (counter deadline : Nat) (flow : FlowClass)

variable {parcel counter deadline flow} in
theorem Transport.After.resized {heuristics : Heuristics} {before after : Transport heuristics}
    {confirmed confirmedAfter : Nat} (positive : 0 < confirmedAfter)
    (reshaped : before.Reshaped after confirmed confirmedAfter none) {arrived : List Symbol}
    (entered : arrived ≠ [])
    (progress : After parcel counter deadline (before.reassembler flow) arrived) :
    After parcel counter deadline (after.reassembler flow) arrived := by
  cases reshaped with
  | hears _ _ _ _ isHeard => cases isHeard
  | keeps reassemblers symbolSize =>
    rw [Transport.reassembler, reassemblers, symbolSize]
    exact progress
  | resizes reassemblers symbolSize =>
    obtain ⟨none, -, -⟩ | ⟨state, sized, object, made⟩ := progress
    · exact absurd none entered
    · unfold Transport.reassembler at object ⊢
      rw [reassemblers, Transport.setSymbolSize]
      dsimp only
      cases known : before.reassemblers flow with
      | none =>
        rw [known] at object
        cases object
      | some re =>
        rw [known] at object
        exact Or.inr ⟨state, positive.ne', object, made⟩

def firstSymbols (count : Nat) : List Symbol := (List.range count).map parcel.symbol

theorem length_dedup_firstSymbols {count : Nat} (bound : count ≤ 255) :
    (firstSymbols parcel count).dedup.length = count := by
  have distinct : (firstSymbols parcel count).Nodup := by
    refine List.Nodup.map_on ?_ nodup_range
    intro first firstMember second secondMember equal
    rw [mem_range] at firstMember secondMember
    exact Parcel.symbol_injective (by omega) (by omega) equal
  rw [distinct.dedup, firstSymbols, length_map, length_range]

def Stage (dp : DataPlane env) (count : Nat) : Prop :=
  if count < parcel.coding.k then
    (dp.session.replay.started = true → dp.session.replay.latest < counter) ∧
      After parcel counter deadline (dp.transport.reassembler flow) (firstSymbols parcel count)
  else
    ∃ arrived, parcel.coding.k ≤ arrived.dedup.length ∧
      After parcel counter deadline (dp.transport.reassembler flow) arrived

variable {parcel counter deadline flow} {dp : DataPlane env} {count : Nat}

/-- The operation takes in no symbol, and opens nothing with a counter of `counter` or above. -/
structure Undisturbed (counter : Nat) (before after : DataPlane env) : Prop where
  reshaped : before.transport.Reshaped after.transport before.plpmtu.confirmedSymbolSize
    after.plpmtu.confirmedSymbolSize none
  positive : 0 < after.plpmtu.confirmedSymbolSize
  window : (before.session.replay.started = true → before.session.replay.latest < counter) →
    after.session.replay.started = true → after.session.replay.latest < counter

theorem DataPlane.Acts.undisturbed {after : DataPlane env} {addr : SocketAddr}
    {opened : Option Nat} {sealing : Bool} {out : List EgressDatagram}
    (acts : dp.Acts after addr none opened sealing out) (climbing : dp.plpmtu.Climbing)
    (below : ∀ number ∈ opened, number < counter) : Undisturbed counter dp after := by
  have rungs : ∀ size ∈ plpmtuLadder, 0 < size := by decide
  refine ⟨acts.reshaped, rungs _ (acts.climbing climbing).rung, ?_⟩
  rw [acts.replay]
  cases opened with
  | none => exact id
  | some number =>
    exact fun window _ => ReplayWindow.latest_commit_lt window (below number rfl)

theorem Stage.undisturbed {after : DataPlane env}
    (stage : Stage parcel counter deadline flow dp count) (begun : 0 < count)
    (undisturbed : Undisturbed counter dp after) :
    Stage parcel counter deadline flow after count := by
  have some := parcel.valid.some
  unfold Stage at stage ⊢
  split at stage
  · rename_i collecting
    rw [if_pos collecting]
    refine ⟨undisturbed.window stage.1,
      stage.2.resized undisturbed.positive undisturbed.reshaped ?_⟩
    simpa [firstSymbols] using begun.ne'
  · rename_i complete
    rw [if_neg complete]
    obtain ⟨arrived, enough, after⟩ := stage
    refine ⟨arrived, enough, after.resized undisturbed.positive undisturbed.reshaped ?_⟩
    rintro rfl
    simp at enough
    omega

variable {nowMs : Nat} {result : DataPlane env × Outcome}

theorem collecting_arrival {inner : List Byte}
    (opens : env.aead.openBytes dp.session.recvKey counter parcel.ciphertext = some inner)
    (collecting : count < parcel.coding.k) (fresh : dp.session.checkReplay counter = true)
    (window : dp.session.replay.started = true → dp.session.replay.latest < counter)
    (after : After parcel counter deadline (dp.transport.reassembler flow)
      (firstSymbols parcel count))
    (first : count = 0 → deadline = min (nowMs + flow.params.deadlineMs) (2 ^ 64 - 1))
    (timely : nowMs ≤ deadline)
    (received : dp.onSymbol (parcel.symbol count) counter flow nowMs = result) :
    Stage parcel counter deadline flow result.1 (count + 1) ∧
      result.2.packets = if count + 1 = parcel.coding.k then [inner] else [] := by
  have room := parcel.valid.room
  have new : parcel.symbol count ∉ firstSymbols parcel count := by
    intro member
    obtain ⟨index, inRange, equal⟩ := mem_map.mp member
    rw [mem_range] at inRange
    have := Parcel.symbol_injective (by omega) (by omega) equal
    omega
  obtain ⟨grown, output⟩ := push_honest after
    (fun empty => first (by simpa [firstSymbols] using empty)) timely
    (Nat.lt_add_right _ collecting)
  have extended : firstSymbols parcel count ++ [parcel.symbol count] =
      firstSymbols parcel (count + 1) := by
    simp [firstSymbols, range_succ]
  rw [extended, ← dp.onSymbol_reassembler, received] at grown
  rw [length_dedup_firstSymbols parcel (by omega)] at output
  have outcome := dp.onSymbol_snd (parcel.symbol count) counter flow nowMs fresh
  rw [show (dp.transport.decode counter _ flow nowMs).2 = _ from output, received] at outcome
  unfold Stage
  by_cases last : count + 1 = parcel.coding.k
  · rw [if_pos ⟨new, last⟩, Option.bind_some, opens] at outcome
    rw [if_neg (by omega), if_pos last, outcome]
    refine ⟨⟨_, ?_, grown⟩, rfl⟩
    rw [length_dedup_firstSymbols parcel (by omega), last]
  · rw [if_neg (fun both => last both.2)] at outcome output
    rw [if_pos (by omega), if_neg last, outcome]
    refine ⟨⟨?_, grown⟩, rfl⟩
    rw [← received, dp.onSymbol_replay _ _ _ _ output]
    exact window

theorem complete_arrival (complete : parcel.coding.k ≤ count)
    (fresh : dp.session.checkReplay counter = true)
    (stage : Stage parcel counter deadline flow dp count) (bound : count < parcel.count)
    (timely : nowMs ≤ deadline)
    (received : dp.onSymbol (parcel.symbol count) counter flow nowMs = result) :
    Stage parcel counter deadline flow result.1 (count + 1) ∧ result.2.packets = [] := by
  have some := parcel.valid.some
  unfold Stage at stage
  rw [if_neg (by omega)] at stage
  obtain ⟨arrived, enough, after⟩ := stage
  obtain ⟨grown, output⟩ := @push_honest parcel counter flow.params.deadlineMs _ _ _ _ _ after
    (by rintro rfl; simp at enough; omega) timely bound
  rw [← dp.onSymbol_reassembler, received] at grown
  have outcome := dp.onSymbol_snd (parcel.symbol count) counter flow nowMs fresh
  rw [if_neg (by omega)] at output
  rw [show (dp.transport.decode counter _ flow nowMs).2 = _ from output, received] at outcome
  unfold Stage
  rw [if_neg (by omega), outcome]
  exact ⟨⟨_, enough.trans (length_dedup_append_ge _ _), grown⟩, rfl⟩

theorem Stage.arrival {inner : List Byte}
    (opens : env.aead.openBytes dp.session.recvKey counter parcel.ciphertext = some inner)
    (stage : Stage parcel counter deadline flow dp count) (bound : count < parcel.count)
    (first : count = 0 → deadline = min (nowMs + flow.params.deadlineMs) (2 ^ 64 - 1))
    (timely : nowMs ≤ deadline)
    (received : (if dp.session.checkReplay counter then
        dp.onSymbol (parcel.symbol count) counter flow nowMs else (dp, .none)) = result) :
    Stage parcel counter deadline flow result.1 (count + 1) ∧
      result.2.packets = if count + 1 = parcel.coding.k then [inner] else [] := by
  by_cases collecting : count < parcel.coding.k
  · unfold Stage at stage
    rw [if_pos collecting] at stage
    obtain ⟨window, after⟩ := stage
    have fresh : dp.session.checkReplay counter = true := by
      by_contra rejected
      obtain ⟨started, old, -⟩ :=
        (ReplayWindow.check_eq_false_iff _ _).mp (Bool.not_eq_true _ ▸ rejected)
      exact absurd (window started) (by omega)
    rw [if_pos fresh] at received
    exact collecting_arrival opens collecting fresh window after first timely received
  · rw [if_neg (by omega)]
    split at received
    · exact complete_arrival (by omega) ‹_› stage bound timely received
    · subst received
      refine ⟨?_, rfl⟩
      unfold Stage at stage ⊢
      rw [if_neg (by omega)] at stage ⊢
      exact stage

end Packet

/-! ### Datagrams in order -/

namespace Conversation

variable {env : Primitives}

def Earlier (receiver : Side) (first : Nat) (_talk : Conversation env) (event : Event) : Prop :=
  ∀ index nowMs, event = .deliver receiver index nowMs → index < first

variable (talk : Conversation env) (event : Event) (side : Side) (dp : DataPlane env)

def Aside (receiver : Side) (first : Nat) (talk : Conversation env) (event : Event) : Prop :=
  ∀ index nowMs, event = .deliver receiver index nowMs → index < first ∧
    ∀ datagram, (talk.sent receiver.other)[index]? = some datagram →
      datagram.head? ≠ some PacketType.data.toByte

inductive Arrives (receiver : Side) (first count limit : Nat) :
    Nat → Conversation env → Conversation env → Prop
  | all (talk : Conversation env) : Arrives receiver first count limit count talk talk
  | next {index : Nat} {talk last : Conversation env} (nowMs : Nat) (timely : nowMs ≤ limit)
      (inside : index < count)
      (rest : Arrives receiver first count limit (index + 1)
        (talk.step (.deliver receiver (first + index) nowMs)) last) :
      Arrives receiver first count limit index talk last
  | meanwhile {index : Nat} {talk last : Conversation env} (event : Event)
      (aside : talk.Aside receiver first event)
      (rest : Arrives receiver first count limit index (talk.step event) last) :
      Arrives receiver first count limit index talk last

theorem step_sent : talk.sent side <+: (talk.step event).sent side := by
  obtain ⟨dp, datagrams, packets, stepped, -⟩ := talk.step_put event
  obtain ⟨own, other⟩ := talk.put_sent event.side dp datagrams packets
  rw [stepped]
  rcases side.eq_or_eq_other event.side with rfl | rfl
  · rw [own]
    exact prefix_append _ _
  · rw [other]

theorem step_credentials :
    ((talk.step event).plane side).credentials = (talk.plane side).credentials := by
  obtain ⟨dp, datagrams, packets, stepped, _, _, _, _, acts, -⟩ := talk.step_put event
  obtain ⟨own, other⟩ := talk.put_plane event.side dp datagrams packets
  rw [stepped]
  rcases side.eq_or_eq_other event.side with rfl | rfl
  · rw [own]
    exact acts.credentials
  · rw [other]

theorem put_written
    (datagrams : List EgressDatagram) : (talk.put side dp datagrams []).written = talk.written := by
  simp [put]

theorem step_keeps {receiver : Side} {event : Event}
    (property : DataPlane env → Prop) (before : property (talk.plane receiver))
    (unheard : ∀ after addr sealing out,
      (talk.plane receiver).Acts after addr none none sealing out → property after)
    (heard : ∀ index nowMs datagram, event = .deliver receiver index nowMs →
      (talk.sent receiver.other)[index]? = some datagram →
        property ((talk.plane receiver).onUdpDatagram datagram nowMs).1) :
    property ((talk.step event).plane receiver) := by
  have put {side : Side} {dp : DataPlane env} {datagrams : List EgressDatagram}
      {packets : List (List Byte)} (own : side = receiver → property dp) :
      property ((talk.put side dp datagrams packets).plane receiver) := by
    by_cases same : side = receiver
    · subst same
      rw [(talk.put_plane side dp datagrams packets).1]
      exact own rfl
    · simp only [Conversation.put, Function.update_of_ne (Ne.symm same)]
      exact before
  cases event with
  | tun side inner nowMs =>
    refine put ?_
    rintro rfl
    exact unheard _ _ _ _ ((talk.plane side).onTunPacket_acts inner nowMs)
  | tick side nowMs jitter =>
    refine put ?_
    rintro rfl
    exact unheard _ _ _ _ ((talk.plane side).tick_acts nowMs jitter)
  | readdress side addr =>
    refine put ?_
    rintro rfl
    exact unheard _ _ _ _ ((talk.plane side).setPeerAddr_acts addr)
  | deliver side index nowMs =>
    simp only [Conversation.step]
    cases known : (talk.sent side.other)[index]? with
    | none => exact before
    | some datagram =>
      refine put ?_
      rintro rfl
      exact heard index nowMs datagram rfl known

theorem onUdpDatagram_undisturbed (climbing : dp.plpmtu.Climbing)
    (datagram : List Byte) (nowMs counter : Nat)
    (below : ReadsBelow env.sip dp.codec counter datagram)
    (notData : datagram.head? ≠ some PacketType.data.toByte) :
    Undisturbed counter dp (dp.onUdpDatagram datagram nowMs).1 ∧
      (dp.onUdpDatagram datagram nowMs).2.packets = [] := by
  rcases datagram with _ | ⟨kind, body⟩
  · exact ⟨DataPlane.Acts.refl.undisturbed climbing (by simp), rfl⟩
  have kindNe : kind ≠ PacketType.data.toByte := fun equal => notData (by rw [equal]; rfl)
  refine ⟨(dp.onUdpDatagram_acts_of_ne kindNe body nowMs).undisturbed climbing
    fun number opened => below number (DataPlane.heardCounter_of_opens opened), ?_⟩
  unfold DataPlane.onUdpDatagram
  dsimp only
  rw [if_neg kindNe]
  split
  · split
    · rfl
    · exact dp.onControl_packets _ _ nowMs
  · rfl

structure Pending (sender : Side) (history : List (List Byte)) (first counter : Nat)
    (credentials : Credentials) (talk : Conversation env) : Prop where
  coherent : talk.Coherent
  sent : history <+: talk.sent sender
  identity : (talk.plane sender.other).credentials = credentials
  early : ∀ index < first, ∀ datagram, history[index]? = some datagram →
    ReadsBelow env.sip credentials.codec counter datagram
  covered : first ≤ history.length

section Pending

variable {sender : Side} {history : List (List Byte)} {first counter : Nat}
  {credentials : Credentials} {talk : Conversation env}

section

variable (pending : talk.Pending sender history first counter credentials)

include pending

theorem Pending.step (event : Event) :
    (talk.step event).Pending sender history first counter credentials where
  coherent := step_coherent talk event pending.coherent
  sent := pending.sent.trans (talk.step_sent event sender)
  identity := (talk.step_credentials event sender.other).trans pending.identity
  early := pending.early
  covered := pending.covered

theorem Pending.readsBelow (index : Nat) (before : index < first) (datagram : List Byte)
    (known : (talk.sent sender)[index]? = some datagram) :
    ReadsBelow env.sip (talk.plane sender.other).codec counter datagram := by
  have codec : (talk.plane sender.other).codec = credentials.codec :=
    congrArg Credentials.codec pending.identity
  obtain ⟨rest, whole⟩ := pending.sent
  rw [← whole, getElem?_append_left (before.trans_le pending.covered)] at known
  rw [codec]
  exact pending.early index before datagram known

theorem Pending.climbing : (talk.plane sender.other).plpmtu.Climbing :=
  (pending.coherent sender.other).climbing

theorem Pending.aside (event : Event) (aside : talk.Aside sender.other first event) :
    Undisturbed counter (talk.plane sender.other) ((talk.step event).plane sender.other) ∧
      (talk.step event).written sender.other = talk.written sender.other := by
  have quiet (index nowMs : Nat) (datagram : List Byte)
      (isEvent : event = .deliver sender.other index nowMs)
      (known : (talk.sent sender.other.other)[index]? = some datagram) :=
    onUdpDatagram_undisturbed (talk.plane sender.other) pending.climbing datagram nowMs counter
      (pending.readsBelow index (aside index nowMs isEvent).1 datagram
        (by rw [← known, Side.other_other]))
      ((aside index nowMs isEvent).2 datagram known)
  refine ⟨talk.step_keeps _ (DataPlane.Acts.refl.undisturbed pending.climbing (by simp))
    (fun _ _ _ _ acts => acts.undisturbed pending.climbing (by simp))
    fun index nowMs datagram isEvent known => (quiet index nowMs datagram isEvent known).1, ?_⟩
  cases event with
  | tun | tick | readdress => rw [Conversation.step, put_written]
  | deliver side index nowMs =>
    simp only [Conversation.step]
    cases known : (talk.sent side.other)[index]? with
    | none => rfl
    | some datagram =>
      dsimp only
      by_cases own : side = sender.other
      · subst own
        rw [(quiet index nowMs datagram rfl known).2, put_written]
      · simp only [put, Function.update_of_ne (Ne.symm own)]

theorem Pending.wait (heard : (talk.plane sender.other).HeardBelow counter) (event : Event)
    (earlier : talk.Earlier sender.other first event) :
    ((talk.step event).plane sender.other).HeardBelow counter := by
  refine talk.step_keeps (·.HeardBelow counter) heard
    (fun _ _ _ _ acts => heard.acts acts (by simp) (by simp))
    fun index nowMs datagram isEvent known => ?_
  refine heard.onUdpDatagram datagram nowMs ?_
  exact pending.readsBelow index (earlier index nowMs isEvent) datagram
    (by rw [← known, Side.other_other])

theorem Pending.waiting (heard : (talk.plane sender.other).HeardBelow counter) (events : List Event)
    (earlier : Machine.Admissible Conversation.step (Earlier sender.other first) talk events) :
    (Machine.run Conversation.step talk events).Pending sender history first counter credentials ∧
      ((Machine.run Conversation.step talk events).plane sender.other).HeardBelow counter :=
  Machine.run_invariant Conversation.step (Earlier sender.other first)
    (fun talk => talk.Pending sender history first counter credentials ∧
      (talk.plane sender.other).HeardBelow counter)
    (fun _ event both allowed => ⟨both.1.step event, both.1.wait both.2 event allowed⟩)
    talk events ⟨pending, heard⟩ earlier

end

end Pending

section InOrder

def onWire (parcel : Parcel) : Parcel := { parcel with objectId := parcel.objectId % 256 ^ 2 }

variable {sender : Side} {history : List (List Byte)} {first counter deadline : Nat}
  {credentials : Credentials} {origin : DataPlane env} {inner : List Byte} {flow : FlowClass}
  {parcel : Parcel} (counterFits : counter < u64Limit) (codec : origin.codec = credentials.codec)
  (opens : env.aead.openBytes credentials.recvKey counter parcel.ciphertext = some inner)
  (packet : ∀ index < parcel.count, history[first + index]? =
    some (origin.dataDatagram (parcel.symbol index) counter flow).bytes)

include counterFits codec opens packet

theorem Pending.arrival {talk : Conversation env}
    (pending : talk.Pending sender history first counter credentials) (index nowMs : Nat)
    (bound : index < parcel.count)
    (start : index = 0 → deadline = min (nowMs + flow.params.deadlineMs) (2 ^ 64 - 1))
    (timely : nowMs ≤ deadline)
    (stage : Stage (onWire parcel) counter deadline flow (talk.plane sender.other) index) :
    Stage (onWire parcel) counter deadline flow
        ((talk.step (.deliver sender.other (first + index) nowMs)).plane sender.other)
        (index + 1) ∧
      (talk.step (.deliver sender.other (first + index) nowMs)).written sender.other =
        talk.written sender.other ++ if index + 1 = parcel.coding.k then [inner] else [] := by
  obtain ⟨rest, whole⟩ := pending.sent
  have inside : first + index < history.length :=
    (List.getElem?_eq_some_iff.mp (packet index bound)).1
  have sent : (talk.sent sender.other.other)[first + index]? = history[first + index]? := by
    rw [Side.other_other, ← whole, getElem?_append_left inside]
  rw [packet index bound] at sent
  have sameCodec : origin.codec = (talk.plane sender.other).codec :=
    codec.trans (congrArg Credentials.codec pending.identity).symm
  have sameKey : (talk.plane sender.other).session.recvKey = credentials.recvKey :=
    congrArg Credentials.recvKey pending.identity
  have received := (talk.plane sender.other).onUdpDatagram_data origin sameCodec
    (parcel.symbol index) _ flow nowMs counterFits (parcel.small.trans_lt (by decide))
  obtain ⟨next, packets⟩ := stage.arrival (by rw [sameKey]; exact opens) bound start timely
    received.symm
  simp only [Conversation.step, sent]
  refine ⟨?_, ?_⟩
  · rw [(talk.put_plane _ _ _ _).1]
    exact next
  · show _ = talk.written sender.other ++ if index + 1 = (onWire parcel).coding.k then _ else _
    rw [← packets]
    simp [put]

theorem Arrives.written {index : Nat} {talk last : Conversation env}
    (arrives : Arrives sender.other first parcel.count deadline index talk last)
    (begun : 0 < index) (pending : talk.Pending sender history first counter credentials)
    (stage : Stage (onWire parcel) counter deadline flow (talk.plane sender.other) index)
    (base : List (List Byte))
    (written : talk.written sender.other = base ++
      if parcel.coding.k ≤ index then [inner] else []) :
    last.written sender.other = base ++ [inner] := by
  induction arrives with
  | all talk =>
    have all : parcel.coding.k ≤ parcel.count := Nat.le_add_right _ _
    rwa [if_pos all] at written
  | @next index talk last nowMs timely inside rest ih =>
    obtain ⟨next, grown⟩ := pending.arrival counterFits codec opens packet index nowMs inside
      (fun zero => absurd zero begun.ne') timely stage
    refine ih (Nat.succ_pos _) (pending.step _) next ?_
    rw [grown, written, append_assoc]
    congr 1
    split <;> split <;> split <;> first | rfl | omega
  | @meanwhile index talk last event aside rest ih =>
    obtain ⟨undisturbed, same⟩ := pending.aside event aside
    exact ih begun (pending.step event)
      (stage.undisturbed begun undisturbed) (same.trans written)

end InOrder

theorem Coherent.pending {talk : Conversation env} (coherent : talk.Coherent) (sender : Side)
    (inner : List Byte) (nowMs : Nat) :
    (talk.step (.tun sender inner nowMs)).Pending sender
        (talk.sent sender ++
          ((talk.plane sender).onTunPacket inner nowMs).2.map EgressDatagram.bytes)
        (talk.sent sender).length (talk.plane sender).session.sendCounter
        (talk.plane sender.other).credentials ∧
      ((talk.step (.tun sender inner nowMs)).plane sender.other).HeardBelow
        (talk.plane sender).session.sendCounter := by
  obtain ⟨own, -⟩ := talk.put_sent sender ((talk.plane sender).onTunPacket inner nowMs).1
    ((talk.plane sender).onTunPacket inner nowMs).2 []
  obtain ⟨-, other⟩ := talk.put_plane sender ((talk.plane sender).onTunPacket inner nowMs).1
    ((talk.plane sender).onTunPacket inner nowMs).2 []
  have facing := coherent sender
  refine ⟨⟨step_coherent _ _ coherent, ?_, ?_, ?_, by simp⟩, ?_⟩
  · exact own ▸ prefix_refl _
  · exact congrArg DataPlane.credentials other
  · intro index before datagram known
    rw [getElem?_append_left before] at known
    have below := facing.sent datagram (mem_of_getElem? known)
    rwa [facing.codec] at below
  · exact other.symm ▸ facing.heard

theorem stage_zero {dp : DataPlane env} {parcel : Parcel} {counter deadline : Nat}
    {flow : FlowClass} (heard : dp.HeardBelow counter)
    (size : parcel.symbolSize = dp.transport.symbolSize) :
    Stage parcel counter deadline flow dp 0 := by
  obtain ⟨reassemblerSize, objects⟩ := heard.reassembler flow
  unfold Stage
  rw [if_pos parcel.valid.some]
  refine ⟨heard.replay, Or.inl ⟨rfl, reassemblerSize.trans size.symm, ?_⟩⟩
  exact AList.lookup_eq_none.mpr fun member => lt_irrefl _ (objects counter member)

/-- A packet whose datagrams reach the other side in order is delivered, whatever else the network
and both sides do, if the symbol size its sender encodes with and the one its receiver has when the
first datagram arrives cut it alike, it is no longer than a reassembler takes, and it arrives within
the deadline of its class. -/
theorem packet_delivered_when_sizes_agree (lawful : env.aead.Lawful)
    (established : Side → Established) (paired : Paired established) (connTag : Nat)
    (l2 obfOn : Bool) (peerAddr : Side → SocketAddr) (symbolSize : Nat) (before : List Event)
    (talk : Conversation env)
    (reached : Machine.run step (start env established connTag l2 obfOn peerAddr symbolSize)
      before = talk)
    (sender : Side) (inner : List Byte) (nowMs : Nat)
    (encoded : ((talk.plane sender).onTunPacket inner nowMs).2 ≠ [])
    (waiting : List Event)
    (earlier : Machine.Admissible step (Earlier sender.other (talk.sent sender).length)
      (talk.step (.tun sender inner nowMs)) waiting)
    (arriving : Conversation env)
    (waited : Machine.run step (talk.step (.tun sender inner nowMs)) waiting = arriving)
    (small : inner.length + 16 ≤ maxObjectSize)
    (agree : SizesAgree (inner.length + 16) (talk.plane sender).transport.symbolSize
      (arriving.plane sender.other).transport.symbolSize)
    (startMs : Nat) (clock : startMs < 2 ^ 64) (last : Conversation env)
    (arrives : Arrives sender.other (talk.sent sender).length
      ((talk.plane sender).onTunPacket inner nowMs).2.length
      (min (startMs + ((talk.plane sender).flowOf inner nowMs).params.deadlineMs) (2 ^ 64 - 1)) 1
      (arriving.step (.deliver sender.other (talk.sent sender).length startMs)) last) :
    last.written sender.other = arriving.written sender.other ++ [inner] := by
  have coherent : talk.Coherent := by
    rw [← reached]
    exact run_coherent _ _ (start_coherent established paired connTag l2 obfOn peerAddr symbolSize)
  have counterFits := ((talk.plane sender).onTunPacket_datagrams inner nowMs encoded).1
  obtain ⟨parcel, size, opens, datagrams⟩ := (talk.plane sender).onTunPacket_cut lawful inner nowMs
    (arriving.plane sender.other).transport encoded small agree
  obtain ⟨sent, unheard⟩ := coherent.pending sender inner nowMs
  obtain ⟨pending, heard⟩ := sent.waiting unheard waiting earlier
  rw [waited] at pending heard
  have facing := coherent sender
  rw [facing.key] at opens
  rw [datagrams, length_map, length_range] at arrives
  have packet : ∀ index < parcel.count, (talk.sent sender ++ ((talk.plane sender).onTunPacket inner
      nowMs).2.map EgressDatagram.bytes)[(talk.sent sender).length + index]? =
        some ((talk.plane sender).dataDatagram (parcel.symbol index)
          (talk.plane sender).session.sendCounter ((talk.plane sender).flowOf inner nowMs)).bytes :=
    fun index bound => by
      rw [getElem?_append_right (Nat.le_add_right _ _), Nat.add_sub_cancel_left, datagrams]
      simp [bound]
  have some := parcel.valid.some
  obtain ⟨next, written⟩ := pending.arrival counterFits facing.codec opens packet 0
    startMs (Nat.lt_add_right _ some) (fun _ => rfl) (by omega) (stage_zero heard size)
  refine arrives.written counterFits facing.codec opens packet Nat.zero_lt_one (pending.step _)
    next _ ?_
  rw [Nat.add_zero] at written
  rw [written]
  congr 1
  split <;> split <;> first | rfl | omega

/-- The receiver's address changes, and with it its symbol size, when one of three symbols has
arrived; the packet is delivered. -/
theorem packet_survives_readdress :
    (Machine.run step (transparent 8)
      [.tun .left (toBeBytes 4 7) 0, .tick .right 5 0, .deliver .right 0 10,
        .readdress .right ⟨2, 2⟩, .deliver .right 1 11, .deliver .right 2 12]).written .right =
      [toBeBytes 4 7] := by
  have delivered := packet_delivered_when_sizes_agree
    (show (Transparent.primitives .default).aead.Lawful from Transparent.aead_lawful) ends ends.2
    0 false false (fun _ => ⟨1, 1⟩) 8 [] (transparent 8) rfl .left (toBeBytes 4 7) 0
    (by decide +kernel) [.tick .right 5 0] ⟨(fun _ _ arrival => by cases arrival), trivial⟩ _ rfl
    (by decide) (by decide +kernel) 10 (by decide) _
    (.meanwhile (.readdress .right ⟨2, 2⟩) (fun _ _ arrival => by cases arrival)
      (.next 11 (by decide) (by decide +kernel)
        (.next 12 (by decide) (by decide +kernel) (.all _))))
  have nothing : (Machine.run step ((transparent 8).step (.tun .left (toBeBytes 4 7) 0))
      [.tick .right 5 0]).written Side.left.other = [] := by
    decide +kernel
  have first : ((transparent 8).sent .left).length = 0 := by decide +kernel
  have right : Side.left.other = .right := rfl
  rw [nothing, nil_append] at delivered
  simp only [Machine.run_cons, Machine.run_nil, first, right, Nat.zero_add, Nat.reduceAdd]
    at delivered ⊢
  exact delivered

/-- The sender's address changes before the packet is sent. It cuts the packet in two symbols of
1120 bytes where the receiver, still at 1200, expects one symbol, and both arrivals are lost. -/
theorem readdressed_sender_not_understood :
    ((Machine.run step (transparent 1200)
        [.readdress .left ⟨2, 2⟩, .tun .left (List.replicate 1134 0) 0]).sent .left).length = 2 ∧
      (Machine.run step (transparent 1200)
        [.readdress .left ⟨2, 2⟩, .tun .left (List.replicate 1134 0) 0, .deliver .right 0 1,
          .deliver .right 1 1]).written .right = [] := by
  decide +kernel

end Conversation

end Yip
