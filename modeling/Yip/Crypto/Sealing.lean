/-
This file is about the counters a session seals under.
-/

import Mathlib.Data.Nat.ModEq
import Yip.Crypto.Session

namespace Yip.Crypto.Session

/-! ### The sealing paths -/

def takeCounter (session : Session) : Session × Except CryptoError Nat :=
  if session.HasRoom then
    ({ session with sendCounter := session.sendCounter + session.stride }, .ok session.sendCounter)
  else (session, .error .decrypt)

/-- `seal_into`: the ciphertext goes to a buffer of the caller. -/
def sealInto (aead : Aead) (session : Session) (plaintext : List Byte) :
    Session × Except CryptoError Nat × List Byte :=
  (session.takeCounter.1, session.takeCounter.2,
    aead.sealBytes session.sendKey session.sendCounter plaintext)

/-- `seal_in_place`: the ciphertext takes the place of the plaintext. -/
def sealInPlace (aead : Aead) (session : Session) (buf : List Byte) (plaintextLen : Nat) :
    Session × Except CryptoError Nat × List Byte :=
  let totalLen := plaintextLen + 16
  if u64Limit ≤ totalLen ∨ buf.length < totalLen then (session, .error .decrypt, buf)
  else
    (session.takeCounter.1, session.takeCounter.2,
      aead.sealBytes session.sendKey session.sendCounter (buf.take plaintextLen) ++
        buf.drop totalLen)

/-! ### Runs -/

/-- The calls that use or change the send counter. -/
inductive Call where
  | sealFrame (plaintext : List Byte)
  | sealInto (plaintext : List Byte)
  | sealInPlace (buf : List Byte) (plaintextLen : Nat)
  | setStride (startCounter stride : Nat)

def call (aead : Aead) (session : Session) : Call → Session × Option Nat
  | .sealFrame plaintext =>
    ((session.sealFrame aead plaintext).1,
      (session.sealFrame aead plaintext).2.toOption.map Prod.fst)
  | .sealInto plaintext =>
    ((session.sealInto aead plaintext).1, (session.sealInto aead plaintext).2.1.toOption)
  | .sealInPlace buf plaintextLen =>
    ((session.sealInPlace aead buf plaintextLen).1,
      (session.sealInPlace aead buf plaintextLen).2.1.toOption)
  | .setStride startCounter stride => (session.setStride startCounter stride, none)

def step (aead : Aead) (session : Session) (next : Call) : Session := (session.call aead next).1

/-- The counters under which a run of calls seals. -/
def sealed (aead : Aead) (session : Session) : List Call → List Nat
  | [] => []
  | next :: rest => (session.call aead next).2.toList ++ sealed aead (session.step aead next) rest

def Call.Seals : Call → Prop
  | .setStride _ _ => False
  | _ => True

def advanced (session : Session) : Session :=
  { session with sendCounter := session.sendCounter + session.stride }

theorem takeCounter_eq (session : Session) :
    session.takeCounter = if session.HasRoom then (session.advanced, .ok session.sendCounter)
      else (session, .error .decrypt) := rfl

theorem sealFrame_eq (aead : Aead) (session : Session) (plaintext : List Byte) :
    session.sealFrame aead plaintext = if session.HasRoom then
        (session.advanced, .ok (session.sendCounter,
          aead.sealBytes session.sendKey session.sendCounter plaintext))
      else (session, .error .decrypt) := rfl

theorem call_cases (aead : Aead) (session : Session) (next : Call) :
    (∃ startCounter stride, next = .setStride startCounter stride ∧
        session.call aead next = (session.setStride startCounter stride, none)) ∨
      next.Seals ∧ (session.call aead next = (session, none) ∨
        session.HasRoom ∧
          session.call aead next = (session.advanced, some session.sendCounter)) := by
  cases next with
  | setStride startCounter stride => exact Or.inl ⟨startCounter, stride, rfl, rfl⟩
  | sealFrame plaintext =>
    refine Or.inr ⟨trivial, ?_⟩
    rw [call, sealFrame_eq]
    by_cases room : session.HasRoom
    · rw [if_pos room]
      exact Or.inr ⟨room, rfl⟩
    · rw [if_neg room]
      exact Or.inl rfl
  | sealInto plaintext =>
    refine Or.inr ⟨trivial, ?_⟩
    rw [call, sealInto, takeCounter_eq]
    by_cases room : session.HasRoom
    · rw [if_pos room]
      exact Or.inr ⟨room, rfl⟩
    · rw [if_neg room]
      exact Or.inl rfl
  | sealInPlace buf plaintextLen =>
    refine Or.inr ⟨trivial, ?_⟩
    rw [call, sealInPlace, takeCounter_eq]
    split_ifs with short room
    · exact Or.inl rfl
    · exact Or.inr ⟨room, rfl⟩
    · exact Or.inl rfl

/-! ### The stride -/

variable {session : Session}

def Saturated (session : Session) : Prop := u64Limit ≤ session.sendCounter + 1

theorem setStride_stride (startCounter stride : Nat) :
    (session.setStride startCounter stride).stride = max stride 1 := by
  have normalised : (session.setStride startCounter stride).stride =
      if stride = 0 then 1 else stride := rfl
  rw [normalised]
  split <;> omega

theorem add_diff_modEq (counter target : Nat) {stride : Nat} (positive : 0 < stride) :
    counter + (if counter % stride ≤ target % stride then target % stride - counter % stride
      else stride - (counter % stride - target % stride)) ≡ target [MOD stride] := by
  have below := Nat.mod_lt counter positive
  have quotient := Nat.div_add_mod counter stride
  have multiple : ∀ factor, stride * factor + target % stride ≡ target [MOD stride] := by
    intro factor
    rw [Nat.ModEq, Nat.mul_add_mod, Nat.mod_mod]
  split
  · rw [show counter + (target % stride - counter % stride) =
      stride * (counter / stride) + target % stride by omega]
    exact multiple _
  · rw [show counter + (stride - (counter % stride - target % stride)) =
      stride * (counter / stride + 1) + target % stride by rw [Nat.mul_succ]; omega]
    exact multiple _

theorem setStride_spec (session : Session) (startCounter stride : Nat) :
    let moved := session.setStride startCounter stride
    moved.Saturated ∨
      session.sendCounter ≤ moved.sendCounter ∧
        moved.sendCounter ≡ startCounter [MOD max stride 1] := by
  intro moved
  have positive : 0 < max stride 1 := by omega
  have normalised : (if stride = 0 then 1 else stride) = max stride 1 := by split <;> omega
  unfold Saturated
  simp only [moved, setStride, normalised]
  by_cases unused : session.sendCounter = 0
  · rw [if_pos unused]
    exact Or.inr ⟨by omega, rfl⟩
  · rw [if_neg unused, saturatingAdd]
    have rounded := add_diff_modEq session.sendCounter startCounter positive
    rcases Nat.le_total (session.sendCounter + _) (u64Limit - 1) with fits | beyond
    · rw [min_eq_left fits]
      exact Or.inr ⟨Nat.le_add_right _ _, rounded⟩
    · rw [min_eq_right beyond]
      exact Or.inl (by decide)

/-! ### What a run seals under -/

variable (aead : Aead)

theorem sealed_spec (positive : 0 < session.stride) (calls : List Call) :
    (session.sealed aead calls).Pairwise (· < ·) ∧
      ∀ counter ∈ session.sealed aead calls,
        session.sendCounter ≤ counter ∧ counter + 1 < u64Limit := by
  induction calls generalizing session with
  | nil => exact ⟨List.Pairwise.nil, fun _ member => absurd member List.not_mem_nil⟩
  | cons next rest ih =>
    rw [sealed, step]
    rcases call_cases aead session next with
      ⟨startCounter, stride, -, moved⟩ | ⟨-, failed | ⟨room, taken⟩⟩
    · rw [moved]
      have later := @ih (session.setStride startCounter stride)
        (by rw [setStride_stride]; omega)
      refine ⟨later.1, fun counter member => ?_⟩
      obtain ⟨above, fits⟩ := later.2 counter member
      refine ⟨?_, fits⟩
      rcases setStride_spec session startCounter stride with saturated | ⟨up, -⟩
      · rw [Saturated] at saturated
        omega
      · exact up.trans above
    · rw [failed]
      exact ih positive
    · rw [taken]
      have later := @ih session.advanced positive
      have above : ∀ counter ∈ session.advanced.sealed aead rest,
          session.sendCounter + session.stride ≤ counter :=
        fun counter member => (later.2 counter member).1
      refine ⟨List.pairwise_cons.mpr ⟨fun counter member => ?_, later.1⟩, ?_⟩
      · exact Nat.lt_of_lt_of_le (Nat.lt_add_of_pos_right positive) (above counter member)
      · rw [HasRoom] at room
        refine List.forall_mem_cons.mpr ⟨⟨Nat.le_refl _, by omega⟩, fun counter after => ?_⟩
        exact ⟨(Nat.le_add_right _ _).trans (above counter after), (later.2 counter after).2⟩

/-- The send counter keeps to one residue, or there is none left. -/
def Aligned (session : Session) (startCounter modulus : Nat) : Prop :=
  session.stride = modulus ∧
    (session.Saturated ∨ session.sendCounter ≡ startCounter [MOD modulus])

theorem aligned_setStride (session : Session) (startCounter stride : Nat) :
    (session.setStride startCounter stride).Aligned startCounter (max stride 1) :=
  ⟨setStride_stride startCounter stride,
    (setStride_spec session startCounter stride).imp_right And.right⟩

theorem Aligned.sealed_modEq {startCounter modulus : Nat}
    (aligned : session.Aligned startCounter modulus) (positive : 0 < modulus) (calls : List Call)
    (sealing : ∀ next ∈ calls, next.Seals) :
    ∀ counter ∈ session.sealed aead calls, counter ≡ startCounter [MOD modulus] := by
  induction calls generalizing session with
  | nil => exact fun _ member => absurd member List.not_mem_nil
  | cons next rest ih =>
    obtain ⟨seals, others⟩ := List.forall_mem_cons.mp sealing
    rw [sealed, step]
    rcases call_cases aead session next with
      ⟨startCounter, stride, rfl, -⟩ | ⟨-, failed | ⟨room, taken⟩⟩
    · exact seals.elim
    · rw [failed]
      exact ih aligned others
    · rw [taken]
      have residue : session.sendCounter ≡ startCounter [MOD modulus] := by
        refine aligned.2.resolve_left fun saturated => ?_
        rw [Saturated] at saturated
        rw [HasRoom, aligned.1] at room
        omega
      have next : session.advanced.Aligned startCounter modulus := by
        refine ⟨aligned.1, Or.inr ?_⟩
        rw [advanced, aligned.1, Nat.ModEq, Nat.add_mod_right]
        exact residue
      exact List.forall_mem_cons.mpr ⟨residue, ih next others⟩

theorem call_of_not_hasRoom (full : ¬ session.HasRoom) {next : Call} (seals : next.Seals) :
    session.call aead next = (session, none) := by
  rcases call_cases aead session next with
    ⟨startCounter, stride, rfl, -⟩ | ⟨-, failed | ⟨room, -⟩⟩
  · exact seals.elim
  · exact failed
  · exact absurd room full

theorem sealed_of_not_hasRoom (full : ¬ session.HasRoom) (calls : List Call)
    (sealing : ∀ next ∈ calls, next.Seals) : session.sealed aead calls = [] := by
  induction calls with
  | nil => rfl
  | cons next rest ih =>
    obtain ⟨seals, others⟩ := List.forall_mem_cons.mp sealing
    rw [sealed, step, call_of_not_hasRoom aead full seals]
    exact ih others

/-- In every run of a session the counters of the sealed frames go up; after a change of the stride
they are in the residue class it asks for, until the next change; and once there is no room every
seal fails, on each path, and leaves the session as it is. -/
theorem sealed_counters_sound (kSend kRecv : Key) (startCounter stride : Nat) :
    let session := fromRawKeys kSend kRecv startCounter stride
    (∀ calls : List Call, (session.sealed aead calls).Pairwise (· < ·)) ∧
      (∀ (before after : List Call) (shardId numShards : Nat), (∀ next ∈ after, next.Seals) →
        let reached := Machine.run (step aead) session (before ++ [.setStride shardId numShards])
        ∀ counter ∈ reached.sealed aead after, counter ≡ shardId [MOD max numShards 1]) ∧
      ∀ before : List Call,
        let reached := Machine.run (step aead) session before
        ¬ reached.HasRoom →
          (∀ next : Call, next.Seals → reached.call aead next = (reached, none)) ∧
          ∀ after : List Call, (∀ next ∈ after, next.Seals) → reached.sealed aead after = [] := by
  intro session
  have positive : 0 < session.stride := by
    have normalised : session.stride = if stride = 0 then 1 else stride := rfl
    rw [normalised]
    split <;> omega
  refine ⟨fun calls => (sealed_spec aead positive calls).1, ?_, ?_⟩
  · intro before after shardId numShards sealing reached
    have moved : reached =
        (Machine.run (step aead) session before).setStride shardId numShards := by
      rw [show reached = _ from Machine.run_append (step aead) session before _]
      rfl
    rw [moved]
    exact (aligned_setStride _ shardId numShards).sealed_modEq aead (by omega) after sealing
  · intro before reached full
    exact ⟨fun next seals => call_of_not_hasRoom aead full seals,
      sealed_of_not_hasRoom aead full⟩

/-- One frame on each path after a session that has sealed one frame was moved to shard 2 of 4. -/
theorem three_paths_keep_residue :
    let aead : Aead := ⟨fun _ _ plaintext => plaintext, fun _ _ ciphertext => some ciphertext⟩
    let reached := Machine.run (step aead) (fromRawKeys [] [] 0 1)
      ([.sealFrame []] ++ [.setStride 2 4])
    let after : List Call := [.sealFrame [], .sealInto [], .sealInPlace (List.replicate 16 0) 0]
    reached.sealed aead after = [2, 6, 10] ∧
      ∀ counter ∈ reached.sealed aead after, counter ≡ 2 [MOD 4] := by
  intro aead reached after
  exact ⟨by decide, (sealed_counters_sound aead [] [] 0 1).2.1 _ after 2 4
    (by simp [after, Call.Seals])⟩

end Yip.Crypto.Session
