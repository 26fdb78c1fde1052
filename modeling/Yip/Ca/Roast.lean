/-
This file models the coordinator of signing sessions (`roast_coordinator.rs`).
-/

import Mathlib.Data.Finset.Sort
import Mathlib.Data.List.Sort
import Yip.Ca.Rpc

namespace Yip.Ca

open Members

structure RoastSession (frost : Frost) where
  sessionId : Nat
  participants : Finset Nat
  signingPackage : SigningPackage frost.Commitments
  collectedShares : AList fun _ : Nat => frost.Share

/-- The coordinator: who is free, who is banished and what is under way. -/
structure RoastCoordinator (frost : Frost) where
  threshold : Nat
  pubkeyPackage : frost.PublicKeyPackage
  message : List Byte
  responsiveSigners : Finset Nat
  commitmentQueues : Nat → List (NonceSlotId × frost.Commitments)
  activeSessions : Nat → Option (RoastSession frost)
  signerToSession : Nat → Option Nat
  banishedSigners : Finset Nat
  nextSessionId : Nat

theorem insertionSort_eq_sort (ids : List Nat) :
    ids.insertionSort (· ≤ ·) = (ids : Multiset Nat).sort (· ≤ ·) := by
  refine List.Perm.eq_of_pairwise (fun _ _ _ _ => Nat.le_antisymm)
    (List.pairwise_insertionSort (· ≤ ·) ids) (Multiset.pairwise_sort _ _) ?_
  exact (List.perm_insertionSort _ ids).trans
    (Multiset.coe_eq_coe.mp (Multiset.sort_eq _ (· ≤ ·))).symm

/-- A set of signers in order. Unlike `Finset.sort`, insertion reduces in the kernel. -/
def inOrder (ids : Finset Nat) : List Nat :=
  Quotient.liftOn ids.val (List.insertionSort (· ≤ ·)) fun first second same => by
    rw [insertionSort_eq_sort, insertionSort_eq_sort, Multiset.coe_eq_coe.mpr same]

theorem inOrder_eq_sort (ids : Finset Nat) : inOrder ids = ids.sort (· ≤ ·) := by
  obtain ⟨⟨list⟩, nodup⟩ := ids
  exact insertionSort_eq_sort list

namespace RoastCoordinator

variable {frost : Frost}

def new (threshold : Nat) (pubkeyPackage : frost.PublicKeyPackage) (message : List Byte) :
    RoastCoordinator frost :=
  ⟨threshold, pubkeyPackage, message, ∅, fun _ => [], fun _ => none, fun _ => none, ∅, 1⟩

def registerCommitments (roast : RoastCoordinator frost) (signerId : Nat)
    (commitments : List (NonceSlotId × frost.Commitments)) : RoastCoordinator frost :=
  if signerId ∈ roast.banishedSigners then roast
  else
    { roast with
      commitmentQueues := Function.update roast.commitmentQueues signerId
        (roast.commitmentQueues signerId ++ commitments)
      responsiveSigners :=
        if (roast.signerToSession signerId).isSome then roast.responsiveSigners
        else insert signerId roast.responsiveSigners }

def eligible (roast : RoastCoordinator frost) : List Nat :=
  ((inOrder roast.responsiveSigners).filter fun id =>
    id ∉ roast.banishedSigners && !(roast.commitmentQueues id).isEmpty).take roast.threshold

def assign (sessionId : Nat) (roast : RoastCoordinator frost) (id : Nat) :
    RoastCoordinator frost :=
  { roast with
    responsiveSigners := roast.responsiveSigners.erase id
    signerToSession := Function.update roast.signerToSession id (some sessionId)
    commitmentQueues := Function.update roast.commitmentQueues id
      (roast.commitmentQueues id).tail }

def trySpawnSession (roast : RoastCoordinator frost) : RoastCoordinator frost ×
    Option (Nat × SigningPackage frost.Commitments × List (Nat × NonceSlotId)) :=
  let ids := roast.eligible
  if ids.length < roast.threshold then (roast, none)
  else
    let sessionId := roast.nextSessionId
    let used := ids.filterMap fun id => (roast.commitmentQueues id).head?.map (id, ·)
    let signingPackage : SigningPackage frost.Commitments :=
      ⟨used.map fun (id, _, commitments) => (id, commitments), roast.message⟩
    let slotMap := used.map fun (id, slot, _) => (id, slot)
    let roast := ids.foldl (assign sessionId) { roast with nextSessionId := sessionId + 1 }
    ({ roast with
        activeSessions := Function.update roast.activeSessions sessionId
          (some ⟨sessionId, ids.toFinset, signingPackage, ∅⟩) },
      some (sessionId, signingPackage, slotMap))

def receiveShare (roast : RoastCoordinator frost) (sessionId signerId : Nat)
    (share : frost.Share) (replenish : Option (NonceSlotId × frost.Commitments)) :
    RoastCoordinator frost × Except String (Option (Bytes 64)) :=
  match roast.activeSessions sessionId with
  | none => (roast, .ok none)
  | some session =>
    if signerId ∉ session.participants then (roast, .ok none)
    else if !frost.knows roast.pubkeyPackage signerId then (roast, .error "UnknownIdentifier")
    else
      match frost.verifyShare roast.pubkeyPackage signerId share session.signingPackage with
      | .error err =>
        ({ roast with
            banishedSigners := insert signerId roast.banishedSigners
            signerToSession := Function.update roast.signerToSession signerId none }, .error err)
      | .ok () =>
        let session :=
          { session with collectedShares := session.collectedShares.insert signerId share }
        let roast :=
          { roast with
            commitmentQueues := Function.update roast.commitmentQueues signerId
              (roast.commitmentQueues signerId ++ replenish.toList)
            signerToSession := Function.update roast.signerToSession signerId none
            responsiveSigners := insert signerId roast.responsiveSigners
            activeSessions := Function.update roast.activeSessions sessionId (some session) }
        if session.collectedShares.entries.length = roast.threshold then
          (roast, (frost.aggregate session.signingPackage session.collectedShares
            roast.pubkeyPackage).map some)
        else (roast, .ok none)

end RoastCoordinator

end Yip.Ca
