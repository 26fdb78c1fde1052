/-
This file models the AEAD session of `yip-crypto` (`Session` in `crates/yip-crypto/src/lib.rs`):
sealing under a counter that advances by a stride, and opening under an explicit counter with
replay protection.
-/

import Yip.Basic
import Yip.Crypto.ReplayWindow

namespace Yip.Crypto

abbrev Key := List Byte

/-- The cipher; the counter is its nonce. -/
structure Aead where
  sealBytes : Key → Nat → List Byte → List Byte
  openBytes : Key → Nat → List Byte → Option (List Byte)

/-- What is sealed opens again, and is 16 bytes longer. -/
structure Aead.Lawful (aead : Aead) : Prop where
  open_seal : ∀ key counter plaintext,
    aead.openBytes key counter (aead.sealBytes key counter plaintext) = some plaintext
  length_seal : ∀ key counter plaintext,
    (aead.sealBytes key counter plaintext).length = plaintext.length + 16

inductive CryptoError where
  | replay
  | decrypt
  deriving DecidableEq, Repr

def u64Limit : Nat := 2 ^ 64

def saturatingAdd (first second : Nat) : Nat := min (first + second) (u64Limit - 1)

/-- The keys of both directions, the counter of one and the window of the other. -/
structure Session where
  sendKey : Key
  recvKey : Key
  sendCounter : Nat
  stride : Nat
  replay : ReplayWindow

namespace Session

def fromRawKeys (kSend kRecv : Key) (startCounter stride : Nat) : Session where
  sendKey := kSend
  recvKey := kRecv
  sendCounter := startCounter
  stride := if stride = 0 then 1 else stride
  replay := ReplayWindow.new

/-- Counts in strides: a counter of zero becomes the start, any other moves on to its residue. -/
def setStride (session : Session) (startCounter stride : Nat) : Session :=
  let stride := if stride = 0 then 1 else stride
  let sendCounter :=
    if session.sendCounter = 0 then startCounter
    else
      let rem := session.sendCounter % stride
      let targetRem := startCounter % stride
      let diff := if rem ≤ targetRem then targetRem - rem else stride - (rem - targetRem)
      saturatingAdd session.sendCounter diff
  { session with sendCounter := sendCounter, stride := stride }

def HasRoom (session : Session) : Prop := session.sendCounter + session.stride < u64Limit

instance (session : Session) : Decidable session.HasRoom :=
  inferInstanceAs (Decidable (_ < _))

/-- Seals a frame under the next counter. -/
def sealFrame (aead : Aead) (session : Session) (plaintext : List Byte) :
    Session × Except CryptoError (Nat × List Byte) :=
  let counter := session.sendCounter
  let ciphertext := aead.sealBytes session.sendKey counter plaintext
  if counter + session.stride < u64Limit then
    ({ session with sendCounter := counter + session.stride }, .ok (counter, ciphertext))
  else (session, .error .decrypt)

def checkReplay (session : Session) (counter : Nat) : Bool := session.replay.check counter

/-- Opens a frame whose counter was not seen; only then is it recorded. -/
def openFrame (aead : Aead) (session : Session) (counter : Nat) (ciphertext : List Byte) :
    Session × Except CryptoError (List Byte) :=
  if !session.replay.check counter then (session, .error .replay)
  else
    match aead.openBytes session.recvKey counter ciphertext with
    | none => (session, .error .decrypt)
    | some plain => ({ session with replay := session.replay.commit counter }, .ok plain)

/-! ### What the operations leave alone -/

theorem openFrame_sendCounter (aead : Aead) (session : Session) (counter : Nat)
    (ciphertext : List Byte) :
    (session.openFrame aead counter ciphertext).1.sendCounter = session.sendCounter := by
  unfold openFrame
  split
  · rfl
  · split <;> rfl

end Session

end Yip.Crypto
