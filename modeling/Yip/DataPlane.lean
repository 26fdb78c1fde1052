/-
This file models the data plane of one session (`dataplane.rs`). A packet of the device is sealed,
coded and sent as symbols; a datagram is deframed, reassembled and opened; the timer reports what
is missing and probes for the symbol size. Ciphers and heuristics are the parameters of
`Yip.Primitives`.
-/

import Yip.Primitives

namespace Yip

open Crypto Transport Wire

/-- What a datagram leads to: a packet for the device, or datagrams to send. -/
inductive Outcome where
  | none
  | tunWrite (inner : List Byte)
  | send (datagrams : List EgressDatagram)
  deriving DecidableEq, Repr

def saturateU32 (count : Nat) : Nat := min count (2 ^ 32 - 1)

/-! ### Sent log -/

/-- The class of each packet sent lately, by its counter. -/
structure SentLog where
  capacity : Nat
  map : AList fun _ : Nat => FlowClass
  order : List (Nat × FlowClass)

namespace SentLog

def new (capacity : Nat) : SentLog := ⟨capacity, ∅, []⟩

/-- Forgets the packet that was logged first. -/
def evictOldest (log : SentLog) : SentLog :=
  match log.order with
  | [] => log
  | (oldest, _) :: rest => { log with map := log.map.erase oldest, order := rest }

def insert (log : SentLog) (counter : Nat) (flow : FlowClass) : SentLog :=
  let log := if log.map.entries.length ≥ log.capacity then log.evictOldest else log
  { log with map := log.map.insert counter flow, order := log.order ++ [(counter, flow)] }

def get (log : SentLog) (counter : Nat) : Option FlowClass := log.map.lookup counter

/-- How many logged packets are of this class. -/
def countClass (log : SentLog) (flow : FlowClass) : Nat :=
  saturateU32 (log.map.entries.countP fun entry => entry.2 = flow)

/-- How many of those in the log's order are of this class and have a counter in the range. -/
def countClassesInRange (log : SentLog) (start stop : Nat) (flow : FlowClass) : Nat :=
  if start > stop then 0
  else
    saturateU32 (log.order.countP fun entry =>
      start ≤ entry.1 ∧ entry.1 ≤ stop ∧ entry.2 = flow)

end SentLog

/-! ### Data plane -/

def sentLogCapacity : Nat := 4096

def retxBufferMax : Nat := 16384

def retxBufferTtlMs : Nat := 2000

def retxExtraRepair : Nat := 4

def feedbackIntervalBase : Nat := 30

/-- One session in both directions: its keys, its codes and what it keeps of the packets sent and
received. -/
structure DataPlane (env : Primitives) where
  session : Session
  rawSendKey : Key
  rawRecvKey : Key
  authKey : Key
  hpKey : Key
  transport : Transport env.heuristics
  codec : Codec
  connTag : Nat
  l2 : Bool
  peerAddr : SocketAddr
  sentLog : SentLog
  retx : RetxBuffer
  detector : LossDetector
  lastLossReportHigh : Nat
  lastFeedbackMs : Nat
  obfOn : Bool
  feedbackIntervalMs : Nat
  arqRetxCount : Nat
  plpmtu : PlpmtuController

/-- The tag that marks a session's frames, from its two wire keys. -/
def connTagFromKeys (authKey hpKey : Key) : Nat := ofBeBytes ((authKey ++ hpKey).take 8)

namespace DataPlane

variable {env : Primitives}

def new (env : Primitives) (established : Established) (connTag : Nat) (l2 : Bool)
    (peerAddr : SocketAddr) (obfOn : Bool) (symbolSize : Nat) : DataPlane env where
  session := established.session
  rawSendKey := established.rawSendKey
  rawRecvKey := established.rawRecvKey
  authKey := established.authKey
  hpKey := established.hpKey
  transport := Transport.new env.heuristics symbolSize
  codec := ⟨established.authKey, established.hpKey⟩
  connTag := connTag
  l2 := l2
  peerAddr := peerAddr
  sentLog := SentLog.new sentLogCapacity
  retx := RetxBuffer.new retxBufferMax retxBufferTtlMs
  detector := LossDetector.new 5 sentLogCapacity
  lastLossReportHigh := 0
  lastFeedbackMs := 0
  obfOn := obfOn
  feedbackIntervalMs := feedbackIntervalBase
  arqRetxCount := 0
  plpmtu := PlpmtuController.new

/-- Moves the session to another address; the path MTU starts again from its floor. -/
def setPeerAddr (dp : DataPlane env) (addr : SocketAddr) : DataPlane env :=
  if dp.peerAddr ≠ addr then
    let (plpmtu, floor) := dp.plpmtu.resetToFloor
    { dp with
      plpmtu := plpmtu
      transport := dp.transport.setSymbolSize floor
      peerAddr := addr }
  else dp

/-- Which worker this data plane belongs to, and of how many. -/
def setShard (dp : DataPlane env) (shardId numShards : Nat) : DataPlane env :=
  { dp with transport := dp.transport.setShard shardId numShards }

def setFecRepairRatio (dp : DataPlane env) (percent : Nat) : DataPlane env :=
  { dp with transport := dp.transport.setFecRepairRatio percent }

/-- A symbol framed and put into a datagram for the peer. -/
def dataDatagram (dp : DataPlane env) (symbol : Symbol) (counter : Nat) (flow : FlowClass) :
    EgressDatagram :=
  ⟨symbol.objectId, dp.peerAddr, PacketType.data.toByte ::
    dp.codec.frame env.sip (symbolToFrame dp.connTag symbol counter flow)⟩

/-- A sealed control frame in a datagram for the peer. -/
def controlDatagram (dp : DataPlane env) (counter : Nat) (ciphertext : List Byte) :
    EgressDatagram :=
  ⟨0, dp.peerAddr, PacketType.control.toByte :: (toBeBytes 8 counter ++ ciphertext)⟩

/-- Seals a control frame, if the session has a counter left. -/
def sealControl (dp : DataPlane env) (frame : ControlFrame) :
    DataPlane env × Option EgressDatagram :=
  match dp.session.sealFrame env.aead frame.encode with
  | (session, .error _) => ({ dp with session := session }, none)
  | (session, .ok (counter, ciphertext)) =>
    ({ dp with session := session }, some (dp.controlDatagram counter ciphertext))

/-- Keeps a packet for a later loss report. -/
def remember (dp : DataPlane env) (counter : Nat) (ciphertext : List Byte) (flow : FlowClass)
    (symbols : List Symbol) (nowMs : Nat) : DataPlane env :=
  let dp := { dp with sentLog := dp.sentLog.insert counter flow }
  match symbols.head? with
  | none => dp
  | some first => { dp with retx := dp.retx.put counter ciphertext flow first.objectId nowMs }

/-- A packet of the device: sealed, encoded and sent as datagrams. -/
def onTunPacket (dp : DataPlane env) (inner : List Byte) (nowMs : Nat) :
    DataPlane env × List EgressDatagram :=
  match dp.session.sealFrame env.aead inner with
  | (session, .error _) => ({ dp with session := session }, [])
  | (session, .ok (counter, ciphertext)) =>
    let (transport, flow, symbols) := dp.transport.encode ciphertext inner dp.l2 nowMs
    let dp := { dp with session := session, transport := transport }
    (dp.remember counter ciphertext flow symbols nowMs,
      symbols.map fun symbol => dp.dataDatagram symbol counter flow)

/-! ### Data datagrams -/

/-- A symbol whose frame was authentic: collected, and the packet opened once it is whole. -/
def onSymbol (dp : DataPlane env) (symbol : Symbol) (counter : Nat) (flow : FlowClass)
    (nowMs : Nat) : DataPlane env × Outcome :=
  let dp := { dp with detector := dp.detector.onSeen counter nowMs }
  match dp.transport.decode counter symbol flow nowMs with
  | (transport, none) => ({ dp with transport := transport }, .none)
  | (transport, some ciphertext) =>
    let dp :=
      { dp with transport := transport, detector := dp.detector.onDelivered counter }
    match dp.session.openFrame env.aead counter ciphertext with
    | (session, .error _) => ({ dp with session := session }, .none)
    | (session, .ok inner) =>
      ({ dp with
          session := session
          transport := dp.transport.observeIngress inner dp.l2 nowMs }, .tunWrite inner)

/-- A data datagram: unframed and handed to `onSymbol`. -/
def onData (dp : DataPlane env) (wire : List Byte) (nowMs : Nat) : DataPlane env × Outcome :=
  match dp.codec.deframe env.sip wire with
  | .error _ => (dp, .none)
  | .ok frame =>
    match frameToSymbol frame with
    | none => (dp, .none)
    | some (symbol, counter, flow) =>
      if !dp.session.checkReplay counter then (dp, .none)
      else dp.onSymbol symbol counter flow nowMs

/-! ### Control datagrams -/

/-- How many of the packets reported missing are of this class. -/
def missingOf (dp : DataPlane env) (report : LossReport) (flow : FlowClass) : Nat :=
  saturateU32 (report.missing.countP fun counter => dp.sentLog.get counter = some flow)

/-- How many packets of this class the report newly covers. -/
def sentOf (dp : DataPlane env) (report : LossReport) (flow : FlowClass) : Nat :=
  if report.highCounter > dp.lastLossReportHigh then
    let start :=
      if dp.lastLossReportHigh = 0 then (dp.sentLog.order.head?.map Prod.fst).getD 0
      else saturatingAdd dp.lastLossReportHigh 1
    dp.sentLog.countClassesInRange start report.highCounter flow
  else dp.sentLog.countClass flow

/-- Losses over packets sent, both cut to sixteen bits. -/
def lossFraction (missing sent : Nat) : Option (Nat × Nat) :=
  if sent > 0 ∨ missing > 0 then
    some (min missing 65535, min (max (max sent missing) 1) 65535)
  else none

/-- At least four fifths are lost. The program divides and compares in `f32`, which gives the same
answer for denominators up to 65535. -/
def severeLoss (missing sent : Nat) : Bool :=
  match lossFraction missing sent with
  | none => false
  | some (numerator, denominator) => 4 * denominator ≤ 5 * numerator && 3 ≤ sent

def observeClass (transport : Transport env.heuristics) (flow : FlowClass) (missing sent : Nat) :
    Transport env.heuristics :=
  match lossFraction missing sent with
  | none => transport
  | some (numerator, denominator) => transport.observeLoss flow numerator denominator

/-- Sends a missing packet again, if it is still kept. -/
def resend (dp : DataPlane env) (missingCounter nowMs : Nat) :
    DataPlane env × List EgressDatagram :=
  match dp.retx.get missingCounter nowMs with
  | none => (dp, [])
  | some (ciphertext, flow, objectId) =>
    if !flow.params.arq then (dp, [])
    else
      let (transport, symbols) :=
        dp.transport.repairObject ciphertext flow objectId retxExtraRepair
      ({ dp with transport := transport, arqRetxCount := saturatingAdd dp.arqRetxCount 1 },
        symbols.map fun symbol => dp.dataDatagram symbol missingCounter flow)

/-- Sends the missing packets again, in the order of the report. -/
def resendAll (dp : DataPlane env) (nowMs : Nat) :
    List Nat → DataPlane env × List EgressDatagram
  | [] => (dp, [])
  | missingCounter :: rest =>
    let (dp, first) := dp.resend missingCounter nowMs
    let (dp, others) := dp.resendAll nowMs rest
    (dp, first ++ others)

/-- Feeds the losses of each class to the code's controllers. -/
def observeReport (dp : DataPlane env) (report : LossReport) : DataPlane env :=
  let missing := dp.missingOf report
  let sent := dp.sentOf report
  let transport := observeClass (observeClass (observeClass dp.transport
    .realtime (missing .realtime) (sent .realtime)) .bulk (missing .bulk) (sent .bulk))
    .default (missing .default) (sent .default)
  let dp :=
    { dp with
      transport := transport
      lastLossReportHigh := max dp.lastLossReportHigh report.highCounter }
  if severeLoss (missing .default) (sent .default) || severeLoss (missing .bulk) (sent .bulk) then
    match dp.plpmtu.onBlackhole with
    | (plpmtu, none) => { dp with plpmtu := plpmtu }
    | (plpmtu, some floor) =>
      { dp with plpmtu := plpmtu, transport := dp.transport.setSymbolSize floor }
  else dp

/-- A loss report: observed, and what it misses sent again. -/
def onFeedback (dp : DataPlane env) (report : LossReport) (nowMs : Nat) :
    DataPlane env × Outcome :=
  let (dp, datagrams) := (dp.observeReport report).resendAll nowMs report.missing
  (dp, if datagrams = [] then .none else .send datagrams)

/-- A probe of the path MTU is acknowledged. -/
def onMtuProbe (dp : DataPlane env) (probeId targetSymbolSize : Nat) : DataPlane env × Outcome :=
  match dp.sealControl (.mtuProbeAck probeId targetSymbolSize) with
  | (dp, none) => (dp, .none)
  | (dp, some datagram) => (dp, .send [datagram])

/-- An acknowledged probe may raise the symbol size. -/
def onMtuProbeAck (dp : DataPlane env) (probeId acceptedSymbolSize : Nat) :
    DataPlane env × Outcome :=
  match dp.plpmtu.onAck probeId acceptedSymbolSize with
  | (plpmtu, none) => ({ dp with plpmtu := plpmtu }, .none)
  | (plpmtu, some newSym) =>
    ({ dp with plpmtu := plpmtu, transport := dp.transport.setSymbolSize newSym }, .none)

def onControlFrame (dp : DataPlane env) (frame : ControlFrame) (nowMs : Nat) :
    DataPlane env × Outcome :=
  match frame with
  | .feedback report => dp.onFeedback report nowMs
  | .mtuProbe probeId targetSymbolSize _ => dp.onMtuProbe probeId targetSymbolSize
  | .mtuProbeAck probeId acceptedSymbolSize => dp.onMtuProbeAck probeId acceptedSymbolSize

/-- A control datagram: opened, decoded and handed to `onControlFrame`. -/
def onControl (dp : DataPlane env) (counter : Nat) (ciphertext : List Byte) (nowMs : Nat) :
    DataPlane env × Outcome :=
  match dp.session.openFrame env.aead counter ciphertext with
  | (session, .error _) => ({ dp with session := session }, .none)
  | (session, .ok plaintext) =>
    let dp :=
      { dp with
        session := session
        detector := (dp.detector.onSeen counter nowMs).onDelivered counter }
    match ControlFrame.decode plaintext with
    | none => (dp, .none)
    | some frame => dp.onControlFrame frame nowMs

/-- Whatever arrives for the session, by the first byte. -/
def onUdpDatagram (dp : DataPlane env) (datagram : List Byte) (nowMs : Nat) :
    DataPlane env × Outcome :=
  match datagram with
  | [] => (dp, .none)
  | kind :: body =>
    if kind = PacketType.data.toByte then dp.onData body nowMs
    else if kind = PacketType.control.toByte then
      if body.length < 8 then (dp, .none)
      else dp.onControl (ofBeBytes (body.take 8)) (body.drop 8) nowMs
    else (dp, .none)

/-! ### Tick -/

/-- The periodic work: a loss report when it is due. -/
def tick (dp : DataPlane env) (nowMs jitter : Nat) : DataPlane env × Option EgressDatagram :=
  if nowMs - dp.lastFeedbackMs < dp.feedbackIntervalMs then
    match dp.plpmtu.onTick nowMs with
    | (plpmtu, none) => ({ dp with plpmtu := plpmtu }, none)
    | (plpmtu, some (probeId, targetSymbolSize, padLen)) =>
      { dp with plpmtu := plpmtu }.sealControl
        (.mtuProbe probeId targetSymbolSize (List.replicate padLen 0))
  else
    let (detector, report) := dp.detector.report nowMs
    { dp with
      lastFeedbackMs := nowMs
      feedbackIntervalMs := if dp.obfOn then jitter else feedbackIntervalBase
      detector := detector }.sealControl (.feedback report)

end DataPlane

end Yip
