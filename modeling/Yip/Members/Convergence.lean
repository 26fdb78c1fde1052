/-
This file is about anti-entropy: whether the records a node has been given determine its
directory, in whatever order they came.
-/

import Yip.Members.Directory

namespace Yip.Members

namespace Membership

variable {suite : Suite} {skew : Nat} {m : Membership} {now : Nat}

theorem lookup_ingestAll {records : List Record}
    (verified : ∀ record ∈ records, m.verifyRecord suite skew record now) :
    (m.ingestAll suite skew records now).directory.lookup =
      LatestWins.ingestAll Record.nodeId Record.seq (m.stands suite skew now) m.directory.lookup
        records := by
  induction records generalizing m with
  | nil => rfl
  | cons record rest ih =>
    have kept : (m.ingestRecord suite skew record now).1.settings = m.settings :=
      ingestRecord_settings
    rw [ingestAll_cons, ih, stands_congr kept,
      lookup_ingestRecord (verified record List.mem_cons_self), LatestWins.ingestAll_cons]
    intro later member
    rw [verifyRecord_congr kept]
    exact verified later (List.mem_cons_of_mem _ member)

/-- The directory does not depend on the order and the repetitions of records that verify exactly if
there is at most one of them or they are orderly: a record that does not stand is not ahead of all
that do, and no two latest ones of a node differ. -/
theorem ingest_order_irrelevant_iff {records : List Record}
    (verified : ∀ record ∈ records, m.verifyRecord suite skew record now) :
    (∀ first second : List Record, (∀ record, record ∈ first ↔ record ∈ records) →
      (∀ record, record ∈ second ↔ record ∈ records) →
      ∀ nid, (m.ingestAll suite skew first now).directory.lookup nid =
        (m.ingestAll suite skew second now).directory.lookup nid) ↔
    (∀ record ∈ records, ∀ other ∈ records, other = record) ∨
      LatestWins.Orderly Record.nodeId Record.seq (m.stands suite skew now) m.directory.lookup
        records := by
  rw [← LatestWins.ingestAll_same_iff]
  have stored {listed : List Record} (same : ∀ record, record ∈ listed ↔ record ∈ records) :
      (m.ingestAll suite skew listed now).directory.lookup =
        LatestWins.ingestAll Record.nodeId Record.seq (m.stands suite skew now)
          m.directory.lookup listed :=
    lookup_ingestAll fun record member => verified record ((same record).mp member)
  constructor
  · intro irrelevant first second firstSame secondSame
    rw [← stored firstSame, ← stored secondSame]
    exact funext (irrelevant first second firstSame secondSame)
  · intro irrelevant first second firstSame secondSame
    have equal := irrelevant first second firstSame secondSame
    rw [← stored firstSame, ← stored secondSame] at equal
    exact congrFun equal

end Membership

open Transparent

def moved : List Record := [record (cert 2 9 2000) 2 0 1, record (cert 2 9 2000) 2 1 2]

/-- Its two records verify and leave the same directory in any order. -/
theorem moved_member_converges :
    (∀ record ∈ moved, member.verifyRecord suite clockSkewSecs record 1500) ∧
    ∀ first second : List Record, (∀ record, record ∈ first ↔ record ∈ moved) →
      (∀ record, record ∈ second ↔ record ∈ moved) →
      ∀ nid, (member.ingestAll suite clockSkewSecs first 1500).directory.lookup nid =
        (member.ingestAll suite clockSkewSecs second 1500).directory.lookup nid := by
  have verified : ∀ record ∈ moved, member.verifyRecord suite clockSkewSecs record 1500 := by
    decide +kernel
  have standing : ∀ record ∈ moved, member.stands suite clockSkewSecs 1500 record = true := by
    decide +kernel
  have numbered : ∀ record ∈ moved, ∀ rival ∈ moved, rival.seq = record.seq → rival = record := by
    decide +kernel
  refine ⟨verified, (Membership.ingest_order_irrelevant_iff verified).mpr (Or.inr ⟨?_, ?_⟩)⟩
  · intro record listed falls
    rw [standing record listed] at falls
    cases falls
  · intro record listed rival alsoListed _ _ _ tie different
    exact absurd (numbered record listed rival alsoListed tie) different

/-- Member 2 was restarted on another endpoint: its two records have the same number, and the one
that comes first stays. -/
theorem restarted_member_diverges :
    let before := record (cert 2 9 2000) 2 initialSeq 1
    let after := record (cert 2 9 2000) 2 initialSeq 2
    (∀ record ∈ [before, after], member.verifyRecord suite clockSkewSecs record 1500) ∧
    (member.ingestAll suite clockSkewSecs [before, after] 1500).directory.lookup before.nodeId =
      some before ∧
    (member.ingestAll suite clockSkewSecs [after, before] 1500).directory.lookup before.nodeId =
      some after ∧
    before ≠ after := by
  decide +kernel

end Yip.Members
