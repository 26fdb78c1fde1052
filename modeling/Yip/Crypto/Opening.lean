/-
This file is about the ways to open a frame: into a new buffer, into one of the caller's, in
place, and against a replay window that the caller keeps.
-/

import Yip.Crypto.Session

namespace Yip.Crypto

/-- What is shorter than a tag does not open. -/
structure Aead.Tagged (aead : Aead) : Prop where
  open_short : ∀ key counter ciphertext, ciphertext.length < 16 →
    aead.openBytes key counter ciphertext = none

namespace Session

variable (aead : Aead) (session : Session)

/-! ### The opening paths -/

variable (counter : Nat) (ciphertext : List Byte)

/-- `open_into`: the plaintext goes to a buffer of the caller. -/
def openInto (counter : Nat) (ciphertext : List Byte) : Session × Except CryptoError (List Byte) :=
  if !session.replay.check counter then (session, .error .replay)
  else
    match aead.openBytes session.recvKey counter ciphertext with
    | none => (session, .error .decrypt)
    | some plain =>
      let out := plain ++ ciphertext.drop plain.length
      ({ session with replay := session.replay.commit counter }, .ok (out.take plain.length))

/-- `open_in_place`: the plaintext takes the place of the ciphertext. -/
def openInPlace (counter : Nat) (buf : List Byte) (sealedLen : Nat) :
    Session × Except CryptoError (Nat × List Byte) :=
  if !session.replay.check counter then (session, .error .replay)
  else if sealedLen < 16 ∨ buf.length < sealedLen then (session, .error .decrypt)
  else
    match aead.openBytes session.recvKey counter (buf.take sealedLen) with
    | none => (session, .error .decrypt)
    | some plain =>
      ({ session with replay := session.replay.commit counter },
        .ok (plain.length, plain ++ buf.drop plain.length))

/-- Opening against a window that is not the session's own. -/
def openWithWindow (counter : Nat) (ciphertext : List Byte) (replay : ReplayWindow) :
    ReplayWindow × Except CryptoError (List Byte) :=
  if !replay.check counter then (replay, .error .replay)
  else
    match aead.openBytes session.recvKey counter ciphertext with
    | none => (replay, .error .decrypt)
    | some plain => (replay.commit counter, .ok plain)

def openIntoWithWindow (counter : Nat) (ciphertext : List Byte) (replay : ReplayWindow) :
    ReplayWindow × Except CryptoError (List Byte) :=
  if !replay.check counter then (replay, .error .replay)
  else
    match aead.openBytes session.recvKey counter ciphertext with
    | none => (replay, .error .decrypt)
    | some plain =>
      let out := plain ++ ciphertext.drop plain.length
      (replay.commit counter, .ok (out.take plain.length))

/-! ### What they do alike -/

theorem openFrame_of_error {counter : Nat} {ciphertext : List Byte} {error : CryptoError}
    (failed : (session.openFrame aead counter ciphertext).2 = .error error) :
    (session.openFrame aead counter ciphertext).1 = session := by
  unfold openFrame at failed ⊢
  split
  · rfl
  · rename_i fresh
    rw [if_neg fresh] at failed
    cases opened : aead.openBytes session.recvKey counter ciphertext with
    | none => rfl
    | some plain =>
      rw [opened] at failed
      cases failed

theorem openInto_eq :
    session.openInto aead counter ciphertext = session.openFrame aead counter ciphertext := by
  unfold openInto openFrame
  split
  · rfl
  · cases aead.openBytes session.recvKey counter ciphertext with
    | none => rfl
    | some plain => simp only [List.take_left]

theorem openWithWindow_eq :
    session.openWithWindow aead counter ciphertext session.replay =
      ((session.openFrame aead counter ciphertext).1.replay,
        (session.openFrame aead counter ciphertext).2) := by
  unfold openWithWindow openFrame
  split
  · rfl
  · cases aead.openBytes session.recvKey counter ciphertext <;> rfl

theorem openIntoWithWindow_eq (replay : ReplayWindow) :
    session.openIntoWithWindow aead counter ciphertext replay =
      session.openWithWindow aead counter ciphertext replay := by
  unfold openIntoWithWindow openWithWindow
  split
  · rfl
  · cases aead.openBytes session.recvKey counter ciphertext with
    | none => rfl
    | some plain => simp only [List.take_left]

theorem openInPlace_eq {aead : Aead} (tagged : aead.Tagged) (counter : Nat) (buf : List Byte)
    {sealedLen : Nat} (inside : sealedLen ≤ buf.length) :
    session.openInPlace aead counter buf sealedLen =
      ((session.openFrame aead counter (buf.take sealedLen)).1,
        (session.openFrame aead counter (buf.take sealedLen)).2.map fun plain =>
          (plain.length, plain ++ buf.drop plain.length)) := by
  unfold openInPlace openFrame
  split
  · rfl
  · by_cases short : sealedLen < 16
    · have length : (buf.take sealedLen).length < 16 := by
        rw [List.length_take_of_le inside]
        exact short
      rw [if_pos (Or.inl short), tagged.open_short _ _ _ length]
      rfl
    · rw [if_neg (by omega)]
      cases aead.openBytes session.recvKey counter (buf.take sealedLen) <;> rfl

theorem openInPlace_of_lt (buf : List Byte) {sealedLen : Nat} (outside : buf.length < sealedLen) :
    session.openInPlace aead counter buf sealedLen =
      (session, .error (if session.replay.check counter then .decrypt else .replay)) := by
  unfold openInPlace
  cases session.replay.check counter
  · rfl
  · exact if_pos (Or.inr outside)

/-- All paths accept the same frames, with the same plaintext, and leave the same window. The frame
in place is what stands in front in the buffer, and so is its plaintext afterwards; a buffer too
short for the frame is refused. A frame that fails leaves the window as it is. -/
theorem opening_paths_agree {aead : Aead} (tagged : aead.Tagged) (session : Session)
    (counter : Nat) (ciphertext : List Byte) :
    let opened := session.openFrame aead counter ciphertext
    session.openInto aead counter ciphertext = opened ∧
      session.openWithWindow aead counter ciphertext session.replay =
        (opened.1.replay, opened.2) ∧
      session.openIntoWithWindow aead counter ciphertext session.replay =
        (opened.1.replay, opened.2) ∧
      (∀ (buf : List Byte) (sealedLen : Nat), sealedLen ≤ buf.length →
        buf.take sealedLen = ciphertext →
        session.openInPlace aead counter buf sealedLen =
          (opened.1, opened.2.map fun plain => (plain.length, plain ++ buf.drop plain.length))) ∧
      (∀ (buf : List Byte) (sealedLen : Nat), buf.length < sealedLen →
        (session.openInPlace aead counter buf sealedLen).1 = session ∧
          ∃ error, (session.openInPlace aead counter buf sealedLen).2 = .error error) ∧
      ∀ error, opened.2 = .error error → opened.1 = session := by
  intro opened
  refine ⟨openInto_eq aead session counter ciphertext,
    openWithWindow_eq aead session counter ciphertext, ?_, ?_, ?_,
    fun error failed => openFrame_of_error aead session failed⟩
  · rw [openIntoWithWindow_eq]
    exact openWithWindow_eq aead session counter ciphertext
  · rintro buf sealedLen inside rfl
    exact openInPlace_eq session tagged counter buf inside
  · intro buf sealedLen outside
    rw [openInPlace_of_lt aead session counter buf outside]
    exact ⟨rfl, _, rfl⟩

/-- A cipher that only checks that there is a tag: a frame of two bytes opens in place in a longer
buffer as it opens by itself. -/
theorem frame_in_buffer_opens :
    let aead : Aead := ⟨fun _ _ plaintext => plaintext ++ List.replicate 16 0, fun _ _ ciphertext =>
      if ciphertext.length < 16 then none else some (ciphertext.take (ciphertext.length - 16))⟩
    let session := fromRawKeys [] [] 0 1
    let ciphertext := [1, 0] ++ List.replicate 16 0
    (session.openFrame aead 7 ciphertext).2 = .ok [1, 0] ∧
      session.openInPlace aead 7 (ciphertext ++ [1]) 18 =
        ((session.openFrame aead 7 ciphertext).1,
          (session.openFrame aead 7 ciphertext).2.map fun plain =>
            (plain.length, plain ++ (ciphertext ++ [1]).drop plain.length)) := by
  intro aead session ciphertext
  have tagged : aead.Tagged := ⟨fun _ _ _ short => if_pos short⟩
  exact ⟨rfl, (opening_paths_agree tagged session 7 ciphertext).2.2.2.1 (ciphertext ++ [1]) 18
    (by decide) rfl⟩

end Session

end Yip.Crypto
