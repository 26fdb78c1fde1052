/-
This file models the frames that a relay and its clients exchange over TLS: the length of an
envelope in two bytes, then the envelope.
-/

import Yip.Obf
import Yip.Rdv.Server
import Yip.Lib.Framing

namespace Yip.Rdv

open Crypto Members Framing List Option

/-! ### Splitting a buffer -/

/-- The first frame of a buffer, for a reader that takes envelopes of up to `cap` bytes. -/
def splitFrame (cap : Nat) (buf : List Byte) : Split Byte (List Byte) :=
  match takeUint 2 buf with
  | none => .more
  | some (length, rest) =>
    if length = 0 ∨ length > cap then .bad
    else if rest.length < length then .more
    else .item (rest.take length) (rest.drop length)

def frameBytes (env : List Byte) : List Byte := toBeBytes 2 env.length ++ env

def InCap (cap : Nat) (env : List Byte) : Prop := 0 < env.length ∧ env.length ≤ cap

variable {cap : Nat} {rest env : List Byte}

theorem splitFrame_append {length : Nat} (short : length < 256 ^ 2) :
    splitFrame cap (toBeBytes 2 length ++ rest) =
      if length = 0 ∨ length > cap then .bad
      else if rest.length < length then .more
      else .item (rest.take length) (rest.drop length) := by
  rw [splitFrame, takeUint_append 2 short]

theorem splitFrame_format (small : cap < 256 ^ 2) :
    Format (splitFrame cap) frameBytes (InCap cap) where
  empty := rfl
  whole := by
    intro env tail inCap
    have short : env.length < 256 ^ 2 := Nat.lt_of_le_of_lt inCap.2 small
    have nonempty := inCap.1
    have capped := inCap.2
    rw [frameBytes, append_assoc, splitFrame_append short, if_neg (by omega),
      if_neg (by rw [length_append]; omega), take_left, drop_left]
  cut := by
    intro env buf later tail inCap part
    have short : env.length < 256 ^ 2 := Nat.lt_of_le_of_lt inCap.2 small
    have nonempty := inCap.1
    have capped := inCap.2
    rw [frameBytes, append_assoc] at part
    -- either the length has not arrived, or what has arrived after it is a part of the rest
    rcases Nat.lt_or_ge buf.length 2 with few | enough
    · left
      have unread : takeUint 2 buf = none := by
        unfold takeUint takeBytes
        rw [dif_neg (by omega)]
        rfl
      rw [splitFrame, unread]
    · have width : (toBeBytes 2 env.length).length ≤ buf.length := by
        rw [length_toBeBytes]
        exact enough
      obtain ⟨arrived, rfl⟩ : toBeBytes 2 env.length <+: buf :=
        prefix_of_prefix_length_le ⟨_, rfl⟩ ⟨_, part⟩ width
      rw [append_assoc, append_right_inj] at part
      rw [splitFrame_append short, if_neg (by omega)]
      rcases Nat.lt_or_ge arrived.length env.length with incomplete | complete
      · exact Or.inl (if_pos incomplete)
      · obtain ⟨rest, rfl⟩ : env <+: arrived :=
          prefix_of_prefix_length_le ⟨_, rfl⟩ ⟨_, part⟩ complete
        rw [append_assoc, append_right_inj] at part
        refine Or.inr ⟨rest, ?_, part⟩
        rw [if_neg (by omega), take_left, drop_left]

/-! ### The client's reader -/

def tlsFrameMax : Nat := 2048

/-- Splits a stream into frames of a length and its bytes. -/
structure FrameReader where
  buf : List Byte

namespace FrameReader

def new : FrameReader := ⟨[]⟩

def push (reader : FrameReader) (bytes : List Byte) : FrameReader := ⟨reader.buf ++ bytes⟩

def next (reader : FrameReader) : Except String (FrameReader × Option (List Byte)) :=
  match splitFrame tlsFrameMax reader.buf with
  | .more => .ok (reader, none)
  | .bad => .error "bad TLS frame length"
  | .item datagram rest => .ok (⟨rest⟩, some datagram)

def run (reader : FrameReader) : List (Op Byte) → Except String (FrameReader × List (List Byte))
  | [] => .ok (reader, [])
  | .push bytes :: rest => (reader.push bytes).run rest
  | .next :: rest =>
    match reader.next with
    | .error error => .error error
    | .ok (reader, datagram) =>
      (reader.run rest).map fun (reader, datagrams) => (reader, datagram.toList ++ datagrams)

/-- However a part of the stream arrives and is read, the reader meets no error. -/
def Accepts (stream : List Byte) : Prop :=
  ∀ ops, pushed ops <+: stream → ∃ after, new.run ops = .ok after

theorem run_eq_collect (reader : FrameReader) (ops : List (Op Byte)) :
    (reader.run ops).toOption =
      (collect (splitFrame tlsFrameMax) reader.buf ops).map fun (buf, items) => (⟨buf⟩, items) := by
  induction ops generalizing reader with
  | nil => rfl
  | cons op rest ih =>
    have taken (reader : FrameReader) (datagram : Option (List Byte)) :
        ((reader.run rest).map fun (reader, datagrams) =>
          (reader, datagram.toList ++ datagrams)).toOption =
        ((collect (splitFrame tlsFrameMax) reader.buf rest).map fun (buf, items) =>
          (buf, datagram.toList ++ items)).map fun (buf, items) => (⟨buf⟩, items) := by
      have same := ih reader
      cases ended : reader.run rest with
      | error error =>
        rw [ended] at same
        rw [map_eq_none_iff.mp same.symm]
        rfl
      | ok value =>
        rw [ended] at same
        obtain ⟨left, found, rfl⟩ := map_eq_some_iff.mp same.symm
        rw [found]
        rfl
    cases op with
    | push bytes =>
      rw [run, ih]
      simp [collect, advance, push]
    | next =>
      rw [run, next, collect, advance]
      cases splitFrame tlsFrameMax reader.buf with
      | bad => rfl
      | more => exact taken reader none
      | item datagram left => exact taken ⟨left⟩ (some datagram)

theorem accepts_of_inCap {envs : List (List Byte)} (fit : ∀ env ∈ envs, InCap tlsFrameMax env) :
    Accepts (envs.flatMap frameBytes) := by
  rintro ops ⟨later, part⟩
  have format : Format (splitFrame tlsFrameMax) frameBytes (InCap tlsFrameMax) :=
    splitFrame_format (by decide)
  obtain ⟨after, taken, left, collected, -⟩ := format.collect_of_fits fit
    (show [] ++ pushed ops ++ later = _ from part)
  have same := run_eq_collect new ops
  rw [show new.buf = [] from rfl, collected] at same
  cases ran : new.run ops with
  | error error =>
    rw [ran] at same
    cases same
  | ok value => exact ⟨value, rfl⟩

end FrameReader

/-! ### The relay's frames -/

def obfPadMax : Nat := 64

structure Draw where
  pad : Nat
  nonce : Bytes 8

def randomPad (max drawn : Nat) : Nat := if max = 0 then 0 else drawn % (max + 1)

def Draw.padLen (draw : Draw) : Nat := randomPad obfPadMax draw.pad

section Frame

variable (sip : Wire.Sip) (obfKey : Bytes 16)

def envelope (message : Message) (nonce : Bytes 8) (padLen : Nat) : Option (List Byte) := do
  let plain ← encode message
  Obf.obfuscate sip obfKey nonce RendezvousServer.rdvType plain padLen

/-- The frame the relay writes (`frame_obf`). -/
def frameObf (message : Message) (draw : Draw) : Option (List Byte) :=
  (envelope sip obfKey message draw.nonce draw.padLen).map fun env =>
    toBeBytes 2 (if env.length < 65536 then env.length else 65535) ++ env

/-- The message in an envelope. -/
def openFrame (env : List Byte) : Option Message := do
  let (kind, body) ← Obf.deobfuscate sip obfKey env
  if kind = RendezvousServer.rdvType then decode body else none

end Frame

variable {sip : Wire.Sip} {obfKey : Bytes 16} {message : Message} {nonce : Bytes 8} {padLen : Nat}

theorem Draw.padLen_le (draw : Draw) : draw.padLen ≤ 64 :=
  Nat.lt_succ_iff.mp (Nat.mod_lt draw.pad (by decide))

theorem length_envelope {plain : List Byte} (encoded : encode message = some plain)
    (wrapped : envelope sip obfKey message nonce padLen = some env) :
    env.length = Obf.minEnvelope + plain.length + padLen := by
  rw [envelope, encoded] at wrapped
  exact Obf.length_obfuscate wrapped

theorem envelope_isSome {plain : List Byte} (encoded : encode message = some plain)
    (short : plain.length < 65536) : (envelope sip obfKey message nonce padLen).isSome := by
  rw [envelope, encoded]
  exact Obf.obfuscate_isSome short

theorem openFrame_envelope (sized : message.Sized)
    (wrapped : envelope sip obfKey message nonce padLen = some env) :
    openFrame sip obfKey env = some message := by
  obtain ⟨plain, encoded, masked⟩ := bind_eq_some_iff.mp wrapped
  have opened := Obf.deobfuscate_obfuscate masked
  simp [openFrame, opened, decode_encode sized encoded]

theorem firstMessage_eq_openFrame {buf : List Byte}
    (found : splitFrame RendezvousServer.tlsFrameCap buf = .item env rest) :
    RendezvousServer.firstMessage (Obf.deobfuscate sip) obfKey buf = openFrame sip obfKey env := by
  unfold splitFrame at found
  split at found
  · cases found
  · rename_i length after taken
    split at found
    · cases found
    · rename_i allowed
      split at found
      · cases found
      · rename_i complete
        obtain ⟨rfl, rfl⟩ := Split.item.inj found
        have framed : takeBytes length after = some
            (⟨after.take length, length_take_of_le (not_lt.mp complete)⟩,
              after.drop length) :=
          takeBytes_eq_some_iff.mpr (take_append_drop length after).symm
        simp [RendezvousServer.firstMessage, taken, allowed, framed, openFrame]

end Yip.Rdv
