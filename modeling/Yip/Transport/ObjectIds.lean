/-
This file is about the object ids that the encoders of several shards issue: each starts at its
own number and goes on in steps of the number of shards.
-/

import Yip.Transparent

namespace Yip.Transport

namespace FecEncoder

/-! ### Runs of an encoder -/

inductive Call where
  | encode (ciphertext : List Byte) (params : FlowParams) (repair : Nat)
  | repairWithId (ciphertext : List Byte) (params : FlowParams) (objectId extraRepair : Nat)

def step (encoder : FecEncoder) : Call → FecEncoder
  | .encode ciphertext params repair => (encoder.encode ciphertext params repair).1
  | .repairWithId ciphertext params objectId extraRepair =>
    (encoder.repairWithId ciphertext params objectId extraRepair).1

def issued (encoder : FecEncoder) : List Call → List Nat
  | [] => []
  | .encode ciphertext params repair :: rest =>
    encoder.nextObjectId :: issued (encoder.step (.encode ciphertext params repair)) rest
  | .repairWithId ciphertext params objectId extraRepair :: rest =>
    issued (encoder.step (.repairWithId ciphertext params objectId extraRepair)) rest

theorem objectId_of_mem_build {ciphertext : List Byte} {params : FlowParams}
    {objectId repair : Nat} {sent : Symbol}
    (member : sent ∈ build ciphertext params objectId repair) : sent.objectId = objectId := by
  have symbols : ∀ (shards : List (List Byte)) (emit : Nat → List Byte → Symbol),
      (∀ index shard, (emit index shard).objectId = objectId) →
        ∀ sent ∈ shards.mapIdx emit, sent.objectId = objectId := by
    intro shards emit same sent member
    obtain ⟨index, inside, rfl⟩ := List.mem_mapIdx.mp member
    exact same _ _
  unfold build at member
  dsimp only at member
  split_ifs at member
  · cases member
  · cases member
  · rcases List.mem_cons.mp member with rfl | repair
    · rfl
    · exact symbols _ _ (fun _ _ => rfl) sent repair
  · rcases List.mem_append.mp member with source | repair
    · exact symbols _ _ (fun _ _ => rfl) sent source
    · exact symbols _ _ (fun _ _ => rfl) sent repair

theorem mem_issued_iff (encoder : FecEncoder) (fits : encoder.nextObjectId < 65536)
    (calls : List Call) (objectId : Nat) :
    objectId ∈ encoder.issued calls ↔ ∃ index < (encoder.issued calls).length,
      objectId = (encoder.nextObjectId + index * encoder.stride) % 65536 := by
  induction calls generalizing encoder with
  | nil => simp [issued]
  | cons call rest ih =>
    cases call with
    | encode ciphertext params repair =>
      have next := ih (encoder.step (.encode ciphertext params repair))
        (Nat.mod_lt _ (by decide))
      have shifted : ∀ index,
          ((encoder.nextObjectId + encoder.stride) % 65536 + index * encoder.stride) % 65536 =
            (encoder.nextObjectId + (index + 1) * encoder.stride) % 65536 := by
        intro index
        rw [Nat.mod_add_mod, Nat.add_assoc, Nat.succ_mul, Nat.add_comm encoder.stride]
      rw [issued, List.mem_cons, List.length_cons, Nat.exists_lt_succ_left, Nat.zero_mul,
        Nat.add_zero, Nat.mod_eq_of_lt fits, next]
      refine or_congr_right (exists_congr fun index => and_congr_right fun _ => ?_)
      rw [← shifted index]
      rfl
    | repairWithId ciphertext params objectId extraRepair =>
      exact ih
        (encoder.step (.repairWithId ciphertext params objectId extraRepair)) fits

end FecEncoder

/-! ### Residues through the wrap -/

/-- The ids stay apart from those of the other workers, also when they wrap. -/
def KeepsResidue (shardId numShards objects : Nat) : Prop :=
  objects = 0 ∨ (numShards ∣ 65536 ∧ numShards < 65536) ∨
    shardId + (objects - 1) * numShards < 65536

instance (shardId numShards objects : Nat) : Decidable (KeepsResidue shardId numShards objects) :=
  inferInstanceAs (Decidable (_ ∨ _ ∧ _ ∨ _))

def shardStride (numShards : Nat) : Nat := if numShards % 65536 = 0 then 1 else numShards % 65536

theorem shardStride_of_lt {numShards : Nat} (some : 0 < numShards) (fits : numShards < 65536) :
    shardStride numShards = numShards := by
  rw [shardStride, Nat.mod_eq_of_lt fits, if_neg some.ne']

variable {shardId numShards objects : Nat}

theorem KeepsResidue.modEq
    (keeps : KeepsResidue shardId numShards objects) (shard : shardId < numShards) {index : Nat}
    (inside : index < objects) :
    (shardId % 65536 + index * shardStride numShards) % 65536 ≡ shardId [MOD numShards] := by
  have residue : shardId + index * numShards ≡ shardId [MOD numShards] := by
    simp [Nat.ModEq]
  rcases keeps with none | ⟨divides, fits⟩ | early
  · omega
  · rw [shardStride_of_lt (by omega) fits, Nat.mod_eq_of_lt (show shardId < 65536 by omega)]
    exact ((Nat.mod_modEq _ 65536).of_dvd divides).trans residue
  · have before : index * numShards ≤ (objects - 1) * numShards :=
      Nat.mul_le_mul_right _ (by omega)
    by_cases fits : numShards < 65536
    · rw [shardStride_of_lt (by omega) fits, Nat.mod_eq_of_lt (show shardId < 65536 by omega),
        Nat.mod_eq_of_lt (by omega)]
      exact residue
    · -- a single object, under the number of the shard itself
      have first : index = 0 := by
        by_contra later
        have : numShards ≤ (objects - 1) * numShards := Nat.le_mul_of_pos_left _ (by omega)
        omega
      rw [first, Nat.zero_mul, Nat.add_zero, Nat.mod_mod, Nat.mod_eq_of_lt (by omega)]

theorem exists_not_modEq
    (loses : ¬ KeepsResidue shardId numShards objects) (shard : shardId < numShards) :
    ∃ index < objects, ¬
      (shardId % 65536 + index * shardStride numShards) % 65536 ≡ shardId [MOD numShards] := by
  obtain ⟨nonzero, odd, wraps⟩ : objects ≠ 0 ∧ ¬ (numShards ∣ 65536 ∧ numShards < 65536) ∧
      ¬ shardId + (objects - 1) * numShards < 65536 := by
    simpa only [KeepsResidue, not_or] using loses
  by_cases fits : numShards < 65536
  · have step : shardStride numShards = numShards := shardStride_of_lt (by omega) fits
    obtain ⟨index, wrap⟩ : ∃ index, (65535 - shardId) / numShards + 1 = index := ⟨_, rfl⟩
    have past : 65536 ≤ shardId + index * numShards := by
      have beyond := Nat.lt_mul_div_succ (65535 - shardId) (show 0 < numShards by omega)
      rw [Nat.mul_comm, wrap] at beyond
      omega
    have under : shardId + index * numShards < 65536 + numShards := by
      have whole := Nat.div_mul_le_self (65535 - shardId) numShards
      rw [← wrap, Nat.succ_mul]
      omega
    refine ⟨index, ?_, ?_⟩
    · have early : (65535 - shardId) / numShards < objects - 1 :=
        Nat.div_lt_of_lt_mul (by rw [Nat.mul_comm]; omega)
      omega
    · rw [step, Nat.mod_eq_of_lt (show shardId < 65536 by omega)]
      intro same
      apply odd
      refine ⟨?_, fits⟩
      have wrapped : (shardId + index * numShards) % 65536 + 65536 =
          shardId + index * numShards := by
        rw [Nat.mod_eq_sub_mod past, Nat.mod_eq_of_lt (by omega)]
        omega
      have residue : (shardId + index * numShards) % 65536 + 65536 ≡
          (shardId + index * numShards) % 65536 [MOD numShards] := by
        rw [wrapped]
        refine Nat.ModEq.trans ?_ same.symm
        simp [Nat.ModEq]
      exact Nat.add_modEq_left_iff.mp residue
  · have apart : ∀ {low : Nat}, low < 65536 → low ≡ shardId [MOD numShards] → low = shardId :=
      fun small same => Nat.ModEq.eq_of_lt_of_lt same (by omega) shard
    by_cases small : shardId < 65536
    · have more : 1 < objects := by
        by_contra few
        rw [show objects - 1 = 0 by omega] at wraps
        omega
      have step : 0 < shardStride numShards ∧ shardStride numShards < 65536 := by
        rw [shardStride]
        split <;> omega
      refine ⟨1, more, fun same => ?_⟩
      have back := apart (Nat.mod_lt _ (by decide)) same
      rw [Nat.mod_eq_of_lt small, Nat.one_mul] at back
      omega
    · refine ⟨0, by omega, fun same => ?_⟩
      have first := apart (Nat.mod_lt _ (by decide)) same
      omega

namespace FecEncoder

theorem mem_issued_setShard_iff {env : Heuristics} (transport : Yip.Transport env)
    (shardId numShards : Nat) (calls : List Call) (objectId : Nat) :
    objectId ∈ (transport.setShard shardId numShards).encoder.issued calls ↔
      ∃ index < ((transport.setShard shardId numShards).encoder.issued calls).length,
        objectId = (shardId % 65536 + index * shardStride numShards) % 65536 :=
  mem_issued_iff _ (Nat.mod_lt _ (by decide)) calls objectId

/-- The ids a shard issues have its residue exactly when the number of shards divides the range of
the ids or the run is too short to wrap. Two shards of which this holds have no id in common. -/
theorem ids_keep_shard_iff {env : Heuristics} (transport : Yip.Transport env) (numShards : Nat) :
    (∀ (encoder : FecEncoder) (ciphertext : List Byte) (params : FlowParams) (repair : Nat),
      ∀ sent ∈ (encoder.encode ciphertext params repair).2,
        sent.objectId = encoder.nextObjectId) ∧
      (∀ shardId < numShards, ∀ calls : List Call,
        let ids := (transport.setShard shardId numShards).encoder.issued calls
        (∀ objectId ∈ ids, objectId ≡ shardId [MOD numShards]) ↔
          KeepsResidue shardId numShards ids.length) ∧
      ∀ first < numShards, ∀ second < numShards, first ≠ second →
        ∀ firstCalls secondCalls : List Call,
        let firstIds := (transport.setShard first numShards).encoder.issued firstCalls
        let secondIds := (transport.setShard second numShards).encoder.issued secondCalls
        KeepsResidue first numShards firstIds.length →
          KeepsResidue second numShards secondIds.length → firstIds.Disjoint secondIds := by
  have residues : ∀ shardId < numShards, ∀ calls : List Call,
      KeepsResidue shardId numShards
          ((transport.setShard shardId numShards).encoder.issued calls).length →
        ∀ objectId ∈ (transport.setShard shardId numShards).encoder.issued calls,
          objectId ≡ shardId [MOD numShards] := by
    intro shardId shard calls keeps objectId member
    obtain ⟨index, inside, rfl⟩ := (mem_issued_setShard_iff _ _ _ _ _).mp member
    exact keeps.modEq shard inside
  refine ⟨fun _ _ _ _ _ member => objectId_of_mem_build member, ?_, ?_⟩
  · intro shardId shard calls ids
    refine ⟨fun kept => ?_, residues shardId shard calls⟩
    by_contra loses
    obtain ⟨index, inside, other⟩ := exists_not_modEq loses shard
    exact other (kept _ ((mem_issued_setShard_iff _ _ _ _ _).mpr ⟨index, inside, rfl⟩))
  · intro first firstShard second secondShard apart firstCalls secondCalls firstIds secondIds
      firstKeeps secondKeeps objectId inFirst inSecond
    have same := (residues first firstShard firstCalls firstKeeps objectId inFirst).symm.trans
      (residues second secondShard secondCalls secondKeeps objectId inSecond)
    exact apart (Nat.ModEq.eq_of_lt_of_lt same firstShard secondShard)

/-- With four shards the ids of shard 3 stay its own beyond the wrap. -/
theorem four_shards_keep_ids :
    let frame : Call := .encode [Byte.ofNat 1] FlowClass.bulk.params 0
    let transport := Yip.Transport.new (Transparent.heuristics .bulk) 1200
    ∀ objectId ∈ (transport.setShard 3 4).encoder.issued (List.replicate 100000 frame),
      objectId ≡ 3 [MOD 4] := by
  intro frame transport
  exact ((ids_keep_shard_iff transport 4).2.1 3 (by decide) _).mpr
    (Or.inr (Or.inl ⟨by decide, by decide⟩))

theorem length_issued_replicate (encoder : FecEncoder) (ciphertext : List Byte)
    (params : FlowParams) (repair count : Nat) :
    (encoder.issued (List.replicate count (.encode ciphertext params repair))).length = count := by
  induction count generalizing encoder with
  | zero => rfl
  | succ count ih =>
    rw [List.replicate_succ, issued, List.length_cons, ih]

/-- With three shards, the object 21847 of shard 0 has the id 2, which is the first of shard 2. -/
theorem third_shard_id_reissued :
    let frame : Call := .encode [Byte.ofNat 1] FlowClass.bulk.params 0
    let transport := Yip.Transport.new (Transparent.heuristics .bulk) 1200
    ¬ KeepsResidue 0 3 21847 ∧
      2 ∈ (transport.setShard 0 3).encoder.issued (List.replicate 21847 frame) ∧
      ¬ 2 ≡ 0 [MOD 3] ∧
      2 ∈ (transport.setShard 2 3).encoder.issued [frame] := by
  intro frame transport
  refine ⟨by decide, (mem_issued_setShard_iff _ _ _ _ _).mpr ⟨21846, ?_, rfl⟩, by decide,
    List.mem_cons_self⟩
  rw [length_issued_replicate]
  decide

end FecEncoder

end Yip.Transport
