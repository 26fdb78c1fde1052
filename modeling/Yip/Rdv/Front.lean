/-
This file models the TLS front of the relay (`conn.rs`, `conn_tunnel.rs`): connections that are
classified by their first frame and then carry a client's frames to be relayed, each with a
bounded queue of frames for its client.
-/

import Yip.Rdv.Frames
import Yip.Members.Directory

namespace Yip.Rdv

open Crypto Members Framing List Option

def channelDepth : Nat := 64

def maxViolations : Nat := 2000

inductive Stage where
  | classifying (buf : List Byte)
  | tunnel (node : NodeId) (readBuf : List Byte) (violations : Nat)
  | closed
  deriving DecidableEq

structure Outgoing where
  message : Message
  draw : Draw

/-- A connection, with what waits in its channel and what was written. -/
structure Conn where
  stage : Stage
  channel : List Outgoing
  written : List Outgoing

/-- The relay behind the TLS front: the routes and the connections. -/
structure Front where
  server : RendezvousServer
  routes : AList fun _ : NodeId => Nat
  conns : Nat → Conn

inductive FrontEvent where
  | arrive (conn : Nat) (bytes : List Byte)
  | classify (conn : Nat) (nowMs nowSecs : Nat) (draw : Draw)
  | frame (conn : Nat) (granted : Bool) (draw : Draw)
  | deliver (conn : Nat)
  | hangUp (conn : Nat)
  | datagram (src : Members.SocketAddr) (message : Message) (nowMs nowSecs : Nat)
  | sweep (nowMs : Nat)

namespace Front

def new (server : RendezvousServer) : Front := ⟨server, ∅, fun _ => ⟨.classifying [], [], []⟩⟩

def setConn (front : Front) (conn : Nat) (value : Conn) : Front :=
  { front with conns := Function.update front.conns conn value }

def setStage (front : Front) (conn : Nat) (stage : Stage) : Front :=
  front.setConn conn { front.conns conn with stage := stage }

def close (front : Front) (conn : Nat) : Front :=
  let closed := front.setStage conn .closed
  match (front.conns conn).stage with
  | .tunnel node _ _ =>
    if front.routes.lookup node = some conn then { closed with routes := closed.routes.erase node }
    else closed
  | _ => closed

def arrive (front : Front) (conn : Nat) (bytes : List Byte) : Front :=
  match (front.conns conn).stage with
  | .classifying buf => front.setStage conn (.classifying (buf ++ bytes))
  | .tunnel node readBuf violations =>
    front.setStage conn (.tunnel node (readBuf ++ bytes) violations)
  | .closed => front

def trySend (front : Front) (conn : Nat) (frame : Outgoing) : Front :=
  let target := front.conns conn
  match target.stage with
  | .tunnel _ _ _ =>
    if target.channel.length < channelDepth then
      front.setConn conn { target with channel := target.channel ++ [frame] }
    else front
  | _ => front

def deliver (front : Front) (conn : Nat) : Front :=
  let target := front.conns conn
  match target.stage, target.channel with
  | .tunnel _ _ _, frame :: rest =>
    front.setConn conn { target with channel := rest, written := target.written ++ [frame] }
  | _, _ => front

section Steps

variable (suite : Suite) (sip : Wire.Sip) (obfKey : Bytes 16)

/-- The first frame upgrades a connection to a tunnel or shows the decoy. -/
def classify (front : Front) (conn : Nat) (nowMs nowSecs : Nat) (draw : Draw) : Front :=
  match (front.conns conn).stage with
  | .classifying buf =>
    match splitFrame RendezvousServer.tlsFrameCap buf with
    | .more => front
    | .bad => front.close conn
    | .item _ rest =>
      match front.server.classifyFirstFrameAt suite (Obf.deobfuscate sip) obfKey buf nowMs
        nowSecs with
      | (server, .decoy) => { front with server := server }.close conn
      | (server, .upgrade node reply) =>
        if (frameObf sip obfKey reply draw).isNone then
          { front with server := server }.setStage conn .closed
        else
          { server := server
            routes := front.routes.insert node conn
            conns := Function.update front.conns conn
              ⟨.tunnel node rest 0, [], (front.conns conn).written ++ [⟨reply, draw⟩]⟩ }
  | _ => front

def route (front : Front) (conn : Nat) (message : Message) (draw : Draw) : Front :=
  match message with
  | .relaySend src dst payload =>
    if (frameObf sip obfKey (.relayDeliver src payload) draw).isNone then
      front.setStage conn .closed
    else
      match front.routes.lookup dst with
      | none => front
      | some target =>
        let server := { front.server with forwarded := front.server.forwarded + 1 }
        { front.trySend target ⟨.relayDeliver src payload, draw⟩ with server := server }
  | _ => front

/-- One frame of a tunnel; too many violations close it. -/
def drainFrame (front : Front) (conn : Nat) (granted : Bool) (draw : Draw) : Front :=
  match (front.conns conn).stage with
  | .tunnel node readBuf violations =>
    match splitFrame RendezvousServer.tlsFrameCap readBuf with
    | .more => front
    | .bad => front.close conn
    | .item env rest =>
      match openFrame sip obfKey env with
      | none => front.close conn
      | some message =>
        if granted then
          (front.setStage conn (.tunnel node rest 0)).route sip obfKey conn message draw
        else if violations + 1 > maxViolations then front.close conn
        else front.setStage conn (.tunnel node rest (violations + 1))
  | _ => front

def step (front : Front) : FrontEvent → Front
  | .arrive conn bytes => front.arrive conn bytes
  | .classify conn nowMs nowSecs draw => front.classify suite sip obfKey conn nowMs nowSecs draw
  | .frame conn granted draw => front.drainFrame sip obfKey conn granted draw
  | .deliver conn => front.deliver conn
  | .hangUp conn => front.close conn
  | .datagram src message nowMs nowSecs =>
    { front with server := (front.server.handle suite src message nowMs nowSecs).1 }
  | .sweep nowMs => { front with server := front.server.sweep nowMs }

def stream (front : Front) (conn : Nat) : List Byte :=
  (front.conns conn).written.flatMap fun frame =>
    (frameObf sip obfKey frame.message frame.draw).getD []

end Steps

/-! ### What the relay writes -/

def frames (front : Front) (conn : Nat) : List Outgoing :=
  (front.conns conn).channel ++ (front.conns conn).written

section Frames

variable {suite : Suite} {sip : Wire.Sip} {obfKey : Bytes 16} {front : Front} {conn other : Nat}
  {frame made : Outgoing} {message : Message} {draw : Draw}

theorem frames_setConn (value : Conn) :
    (front.setConn conn value).frames other =
      if other = conn then value.channel ++ value.written else front.frames other := by
  unfold frames setConn
  split
  · rename_i same
    subst same
    simp
  · rename_i apart
    simp [Function.update_of_ne apart]

@[simp]
theorem frames_setStage (stage : Stage) :
    (front.setStage conn stage).frames other = front.frames other := by
  rw [setStage, frames_setConn]
  split
  · rename_i same
    subst same
    rfl
  · rfl

@[simp]
theorem frames_close : (front.close conn).frames other = front.frames other := by
  unfold close
  split
  · split
    · exact frames_setStage _
    · exact frames_setStage _
  · exact frames_setStage _

theorem frames_arrive {bytes : List Byte} :
    (front.arrive conn bytes).frames other = front.frames other := by
  unfold arrive
  split
  · exact frames_setStage _
  · exact frames_setStage _
  · rfl

theorem mem_frames_trySend (member : frame ∈ (front.trySend conn made).frames other) :
    frame ∈ front.frames other ∨ frame = made := by
  unfold trySend at member
  dsimp only at member
  split at member
  · split at member
    · rw [frames_setConn] at member
      split at member
      · rename_i same
        subst same
        simp only [append_assoc, mem_append, mem_singleton] at member
        rcases member with queued | isMade | written
        · exact Or.inl (mem_append_left _ queued)
        · exact Or.inr isMade
        · exact Or.inl (mem_append_right _ written)
      · exact Or.inl member
    · exact Or.inl member
  · exact Or.inl member

theorem mem_frames_deliver :
    frame ∈ (front.deliver conn).frames other ↔ frame ∈ front.frames other := by
  unfold deliver
  dsimp only
  split
  · rename_i waiting
    rw [frames_setConn]
    split
    · rename_i same
      subst same
      simp only [frames, waiting, mem_append, mem_cons, not_mem_nil, or_false]
      tauto
    · exact Iff.rfl
  · exact Iff.rfl

/-- The client that is sent the frame takes its length. -/
def Fits (frame : Outgoing) : Prop :=
  ∃ plain, encode frame.message = some plain ∧
    Obf.minEnvelope + plain.length + frame.draw.padLen ≤ tlsFrameMax

/-- The message in the first frame that waits in the buffer of a connection. -/
def waits (sip : Wire.Sip) (obfKey : Bytes 16) (front : Front) (conn : Nat) : Option Message :=
  match (front.conns conn).stage with
  | .classifying buf | .tunnel _ buf _ =>
    match splitFrame RendezvousServer.tlsFrameCap buf with
    | .item env _ => openFrame sip obfKey env
    | _ => none
  | .closed => none

/-- A client that sends a message to be relayed, or a record to be registered and echoed, leaves
room in the frame for the padding that is drawn when the relay passes it on. -/
def Roomy (sip : Wire.Sip) (obfKey : Bytes 16) (front : Front) : FrontEvent → Prop
  | .frame conn _ draw =>
    match front.waits sip obfKey conn with
    | some (.relaySend _ _ payload) => 28 + payload.length + draw.padLen ≤ tlsFrameMax
    | _ => True
  | .classify conn _ _ draw =>
    match front.waits sip obfKey conn with
    | some (.registerSigned record) =>
      ∀ bytes ∈ record.encode, 14 + bytes.length + draw.padLen ≤ tlsFrameMax
    | _ => True
  | _ => True

instance (front : Front) (event : FrontEvent) : Decidable (front.Roomy sip obfKey event) := by
  unfold Roomy
  split
  · split <;> infer_instance
  · split <;> infer_instance
  · infer_instance

theorem mem_frames_route
    (room : ∀ src dst payload, message = .relaySend src dst payload →
      28 + payload.length + draw.padLen ≤ tlsFrameMax)
    (member : frame ∈ (front.route sip obfKey conn message draw).frames other) :
    frame ∈ front.frames other ∨ Fits frame := by
  unfold route at member
  split at member
  · rename_i src dst payload
    split at member
    · rw [frames_setStage] at member
      exact Or.inl member
    · split at member
      · exact Or.inl member
      · rename_i target _
        have sent : frame ∈ (front.trySend target ⟨.relayDeliver src payload, draw⟩).frames other :=
          member
        refine (mem_frames_trySend sent).imp_right ?_
        rintro rfl
        have short := room src dst payload rfl
        refine ⟨_, rfl, ?_⟩
        simp only [length_cons, length_append, src.toList_length, Obf.minEnvelope, Obf.nonceLen]
        omega
  · exact Or.inl member

theorem mem_frames_drainFrame {granted : Bool}
    (room : front.Roomy sip obfKey (.frame conn granted draw))
    (member : frame ∈ (front.drainFrame sip obfKey conn granted draw).frames other) :
    frame ∈ front.frames other ∨ Fits frame := by
  unfold drainFrame at member
  split at member
  · rename_i stage
    split at member
    · exact Or.inl member
    · rw [frames_close] at member
      exact Or.inl member
    · rename_i found
      split at member
      · rw [frames_close] at member
        exact Or.inl member
      · rename_i message opened
        have waiting : front.waits sip obfKey conn = some message := by
          simp only [waits, stage, found, opened]
        split at member
        · have short : ∀ src dst payload, message = .relaySend src dst payload →
              28 + payload.length + draw.padLen ≤ tlsFrameMax := by
            rintro src dst payload rfl
            simpa only [Roomy, waiting] using room
          have routed := mem_frames_route short member
          rwa [frames_setStage] at routed
        · split at member
          · rw [frames_close] at member
            exact Or.inl member
          · rw [frames_setStage] at member
            exact Or.inl member
  · exact Or.inl member

theorem fits_reply {server after : RendezvousServer} {buf env rest : List Byte} {node : NodeId}
    {reply : Message} {nowMs nowSecs : Nat}
    (found : splitFrame RendezvousServer.tlsFrameCap buf = .item env rest)
    (upgraded : server.classifyFirstFrameAt suite (Obf.deobfuscate sip) obfKey buf nowMs nowSecs =
      (after, .upgrade node reply))
    (room : ∀ record, openFrame sip obfKey env = some (.registerSigned record) →
      ∀ bytes ∈ record.encode, 14 + bytes.length + draw.padLen ≤ tlsFrameMax)
    (made : (frameObf sip obfKey reply draw).isSome) : Fits ⟨reply, draw⟩ := by
  unfold RendezvousServer.classifyFirstFrameAt at upgraded
  rw [firstMessage_eq_openFrame found] at upgraded
  split at upgraded
  · rename_i message opened
    obtain ⟨rfl, believed⟩ := RendezvousServer.of_classifyMessage_upgrade
      (congrArg Prod.snd upgraded)
    unfold RendezvousServer.believedTls at believed
    split at believed
    · rename_i record _
      obtain ⟨env, wrapped⟩ := isSome_iff_exists.mp (isSome_map.symm.trans made)
      obtain ⟨plain, encoded, -⟩ := bind_eq_some_iff.mp wrapped
      obtain ⟨content, put, rfl⟩ := map_eq_some_iff.mp encoded
      obtain ⟨bytes, written, joins⟩ := bind_eq_some_iff.mp put
      obtain ⟨field, isField, joined⟩ := bind_eq_some_iff.mp joins
      obtain rfl := some.inj joined
      obtain ⟨-, rfl⟩ := lengthField_eq_some_iff.mp isField
      have short := room record opened bytes written
      refine ⟨_, encoded, ?_⟩
      simp only [length_cons, length_append, length_toBeBytes, Obf.minEnvelope, Obf.nonceLen]
      omega
    · rename_i node counter mac _
      have padded := draw.padLen_le
      refine ⟨_, rfl, ?_⟩
      simp only [length_cons, length_append, length_toBeBytes, node.toList_length,
        mac.toList_length, Obf.minEnvelope, Obf.nonceLen, tlsFrameMax]
      omega
    · cases believed
  · cases upgraded

theorem mem_frames_classify {nowMs nowSecs : Nat}
    (room : front.Roomy sip obfKey (.classify conn nowMs nowSecs draw))
    (member : frame ∈ (front.classify suite sip obfKey conn nowMs nowSecs draw).frames other) :
    frame ∈ front.frames other ∨ Fits frame := by
  unfold classify at member
  split at member
  · rename_i buf stage
    split at member
    · exact Or.inl member
    · rw [frames_close] at member
      exact Or.inl member
    · rename_i env rest found
      split at member
      · rw [frames_close] at member
        exact Or.inl member
      · rename_i server node reply upgraded
        split at member
        · rw [frames_setStage] at member
          exact Or.inl member
        · rename_i made
          have replied : frame ∈ (front.setConn conn ⟨.tunnel node rest 0, [],
              (front.conns conn).written ++ [⟨reply, draw⟩]⟩).frames other := member
          rw [frames_setConn] at replied
          split at replied
          · rename_i same
            subst same
            rw [nil_append, mem_append, mem_singleton] at replied
            rcases replied with written | rfl
            · exact Or.inl (mem_append_right _ written)
            · refine Or.inr (fits_reply found upgraded (fun record opened => ?_)
                (isSome_iff_ne_none.mpr (mt isNone_iff_eq_none.mpr made)))
              have waiting : front.waits sip obfKey other = some (.registerSigned record) := by
                simp only [waits, stage, found, opened]
              simpa only [Roomy, waiting] using room
          · exact Or.inl replied
  · exact Or.inl member

theorem mem_frames_step {event : FrontEvent} (room : front.Roomy sip obfKey event)
    (member : frame ∈ (front.step suite sip obfKey event).frames other) :
    frame ∈ front.frames other ∨ Fits frame := by
  cases event with
  | arrive conn bytes =>
    rw [step, frames_arrive] at member
    exact Or.inl member
  | classify conn nowMs nowSecs draw => exact mem_frames_classify room member
  | frame conn granted draw => exact mem_frames_drainFrame room member
  | deliver conn => exact Or.inl (mem_frames_deliver.mp member)
  | hangUp conn =>
    rw [step, frames_close] at member
    exact Or.inl member
  | datagram src message nowMs nowSecs => exact Or.inl member
  | sweep nowMs => exact Or.inl member

theorem fits_of_run {server : RendezvousServer} {events : List FrontEvent}
    (roomy : Machine.Admissible (step suite sip obfKey) (Roomy sip obfKey) (new server) events)
    (member : frame ∈ (Machine.run (step suite sip obfKey) (new server) events).frames conn) :
    Fits frame := by
  have all := Machine.run_invariant (step suite sip obfKey) (Roomy sip obfKey)
    (fun front => ∀ conn, ∀ frame ∈ front.frames conn, Fits frame)
    (fun front event fits room conn frame member =>
      (mem_frames_step room member).elim (fits conn frame) id)
    (new server) events (fun _ _ absent => absurd absent not_mem_nil) roomy
  exact all conn frame member

theorem envelope_of_fits (sip : Wire.Sip) (obfKey : Bytes 16) (fits : Fits frame) :
    ∃ env, envelope sip obfKey frame.message frame.draw.nonce frame.draw.padLen = some env ∧
      frameObf sip obfKey frame.message frame.draw = some (frameBytes env) ∧
      InCap tlsFrameMax env := by
  obtain ⟨plain, encoded, room⟩ := fits
  have cap : tlsFrameMax = 2048 := rfl
  obtain ⟨env, wrapped⟩ := isSome_iff_exists.mp
    (@envelope_isSome sip obfKey frame.message frame.draw.nonce frame.draw.padLen plain encoded
      (by omega))
  have length := length_envelope encoded wrapped
  have positive : 0 < Obf.minEnvelope := by decide
  refine ⟨env, wrapped, ?_, by omega, by omega⟩
  rw [frameObf, wrapped, map_some, if_pos (by omega), frameBytes]

end Frames

/-- In every run in which the clients leave room for the padding that is drawn for what they send,
each client accepts all that the relay writes to it, however it arrives. -/
theorem client_accepts_relayed (suite : Suite) (sip : Wire.Sip) (obfKey : Bytes 16)
    (server : RendezvousServer) (events : List FrontEvent)
    (roomy : Machine.Admissible (step suite sip obfKey) (Roomy sip obfKey) (new server) events)
    (conn : Nat) :
    FrameReader.Accepts
      ((Machine.run (step suite sip obfKey) (new server) events).stream sip obfKey conn) := by
  generalize reached : Machine.run (step suite sip obfKey) (new server) events = front
  have fits : ∀ frame ∈ (front.conns conn).written, Fits frame := by
    intro frame member
    exact fits_of_run roomy (reached ▸ mem_append_right _ member)
  let envelopeOf (frame : Outgoing) : List Byte :=
    (envelope sip obfKey frame.message frame.draw.nonce frame.draw.padLen).getD []
  have framed : front.stream sip obfKey conn =
      ((front.conns conn).written.map envelopeOf).flatMap frameBytes := by
    rw [stream, flatMap_map]
    refine flatMap_congr fun frame member => ?_
    obtain ⟨env, wrapped, isFrame, -⟩ := envelope_of_fits sip obfKey (fits frame member)
    rw [isFrame, getD_some]
    simp only [envelopeOf, wrapped, getD_some]
  have inCap : ∀ env ∈ (front.conns conn).written.map envelopeOf, InCap tlsFrameMax env := by
    rw [List.forall_mem_map]
    intro frame member
    obtain ⟨env, wrapped, -, inCap⟩ := envelope_of_fits sip obfKey (fits frame member)
    simpa only [envelopeOf, wrapped, getD_some] using inCap
  rw [framed]
  exact FrameReader.accepts_of_inCap inCap

/-! ### The longest payload, and one that breaks its receiver -/

namespace Transparent

open Members.Transparent

def sip : Wire.Sip := fun _ _ => 0

def obfKey : Bytes 16 := all 16 7

def draw (pad : Nat) : Draw := ⟨pad, all 8 0⟩

def registration (client : Nat) : Message :=
  .registerAuth (all 16 client) 1 (computeRegisterMac suite obfKey (all 16 client) 1)

def frame (message : Message) : List Byte := (frameObf sip obfKey message (draw 0)).getD []

/-- Two clients register, and the first sends the second a payload. -/
def relaying (length pad : Nat) : List FrontEvent :=
  [.arrive 2 (frame (registration 2)), .classify 2 0 0 (draw 0),
    .arrive 1 (frame (registration 1)), .classify 1 0 0 (draw 0),
    .arrive 1 (frame (.relaySend (all 16 1) (all 16 2) (List.replicate length (Byte.ofNat 0)))),
    .frame 1 true (draw pad), .deliver 2]

def relayed (length pad : Nat) : Front :=
  Machine.run (step suite sip obfKey) (new RendezvousServer.new) (relaying length pad)

end Transparent

/-- A payload of 1956 bytes leaves room for the longest padding. -/
theorem longest_payload_accepted :
    ((Transparent.relayed 1956 64).conns 2).written.length = 2 ∧
      FrameReader.Accepts
        ((Transparent.relayed 1956 64).stream Transparent.sip Transparent.obfKey 2) :=
  ⟨by decide +kernel, client_accepts_relayed _ _ _ _ _ (by decide +kernel) 2⟩

/-- The relay keeps the connection of the sender, and the reader of the receiver fails. -/
theorem long_payload_breaks_receiver :
    ((Transparent.relayed 2004 17).conns 1).stage = .tunnel (Members.Transparent.all 16 1) [] 0 ∧
      ¬ FrameReader.Accepts
        ((Transparent.relayed 2004 17).stream Transparent.sip Transparent.obfKey 2) := by
  have evaluated : ((Transparent.relayed 2004 17).conns 1).stage =
        .tunnel (Members.Transparent.all 16 1) [] 0 ∧
      (FrameReader.new.run
        [.push ((Transparent.relayed 2004 17).stream Transparent.sip Transparent.obfKey 2), .next,
          .next]).isOk = false := by
    decide +kernel
  obtain ⟨kept, fails⟩ := evaluated
  refine ⟨kept, fun accepts => ?_⟩
  obtain ⟨after, accepted⟩ := accepts
    [.push ((Transparent.relayed 2004 17).stream Transparent.sip Transparent.obfKey 2), .next,
      .next]
    (by rw [pushed, pushed, pushed, pushed, append_nil])
  rw [accepted] at fails
  cases fails

end Front

end Yip.Rdv
