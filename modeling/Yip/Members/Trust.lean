/-
This file is about what a node may rely on in its directory.
-/

import Yip.Members.History

namespace Yip.Members

namespace Membership

section Index

variable {suite : Suite} {skew : Nat} {m : Membership} {record : Record} {now : Nat}

theorem ingestRecord_cases :
    (m.takes suite skew record now = false ∧
      (m.ingestRecord suite skew record now).1 = (m.sweepExpired suite skew now).1) ∨
    (m.takes suite skew record now = true ∧ (m.ingestRecord suite skew record now).1 =
      (m.sweepExpired suite skew now).1.insertRecord suite record) := by
  unfold ingestRecord takes
  dsimp only
  rw [verifyRecord_congr sweepExpired_settings]
  by_cases verified : m.verifyRecord suite skew record now
  · rw [if_pos verified, verified, Bool.true_and]
    unfold insertIfNewer
    split
    · split
      · exact Or.inl ⟨rfl, rfl⟩
      · exact Or.inr ⟨rfl, rfl⟩
    · exact Or.inr ⟨rfl, rfl⟩
  · rw [if_neg verified, Bool.eq_false_iff.mpr verified, Bool.false_and]
    exact Or.inl ⟨rfl, rfl⟩

theorem verifyRecord_of_takes (taken : m.takes suite skew record now) :
    m.verifyRecord suite skew record now := (Bool.and_eq_true _ _ ▸ taken).1

variable {found : Record} {nid : NodeId} {records : List Record}

theorem lookup_of_sweepExpired
    (isFound : (m.sweepExpired suite skew now).1.directory.lookup nid = some found) :
    m.directory.lookup nid = some found := by
  have swept := (congrFun lookup_sweepExpired nid).symm.trans isFound
  exact (LatestWins.stands_of_sweep swept).1

theorem lookup_of_ingestRecord
    (isFound : (m.ingestRecord suite skew record now).1.directory.lookup nid = some found) :
    m.directory.lookup nid = some found ∨ (found = record ∧ m.takes suite skew record now) := by
  rcases ingestRecord_cases with ⟨-, swept⟩ | ⟨taken, inserted⟩
  · rw [swept] at isFound
    exact Or.inl (lookup_of_sweepExpired isFound)
  · rw [inserted] at isFound
    by_cases here : nid = record.nodeId
    · subst here
      exact Or.inr ⟨(Option.some.inj (lookup_insertRecord_self.symm.trans isFound)).symm, taken⟩
    · exact Or.inl (lookup_of_sweepExpired ((AList.lookup_insert_ne here).symm.trans isFound))

theorem lookup_of_ingestAll
    (isFound : (m.ingestAll suite skew records now).directory.lookup nid = some found) :
    m.directory.lookup nid = some found ∨ found ∈ m.takenOf suite skew now records := by
  induction records generalizing m with
  | nil => exact Or.inl isFound
  | cons head rest ih =>
    unfold takenOf
    rcases ih isFound with before | later
    · rcases lookup_of_ingestRecord before with earlier | ⟨rfl, taken⟩
      · exact Or.inl earlier
      · rw [if_pos taken]
        exact Or.inr List.mem_cons_self
    · refine Or.inr ?_
      split
      · exact List.mem_cons_of_mem _ later
      · exact later

theorem verifyRecord_of_mem_takenOf (taken : record ∈ m.takenOf suite skew now records) :
    record ∈ records ∧ m.verifyRecord suite skew record now := by
  induction records generalizing m with
  | nil => cases taken
  | cons head rest ih =>
    have later (inRest : record ∈
        (m.ingestRecord suite skew head now).1.takenOf suite skew now rest) :
        record ∈ head :: rest ∧ m.verifyRecord suite skew record now := by
      obtain ⟨member, verified⟩ := ih inRest
      rw [verifyRecord_congr ingestRecord_settings] at verified
      exact ⟨List.mem_cons_of_mem _ member, verified⟩
    unfold takenOf at taken
    split at taken
    · rename_i takes
      rcases List.mem_cons.mp taken with rfl | inRest
      · exact ⟨List.mem_cons_self, verifyRecord_of_takes takes⟩
      · exact later inRest
    · exact later taken

/-! ### The index by address -/

/-- No two of the keys share a node or an address. -/
structure Collisionless (suite : Suite) (keys : Set (Bytes 32)) : Prop where
  nodeId : Set.InjOn (nodeId suite) keys
  nodeAddr : Set.InjOn (nodeAddr suite) keys

/-- The index leads from an address to its member, and nowhere else. -/
structure Indexed (suite : Suite) (keys : Set (Bytes 32)) (m : Membership) : Prop where
  bound : ∀ nid record, m.directory.lookup nid = some record →
    nid = nodeId suite record.cert.memberPubkey ∧ record.cert.memberPubkey ∈ keys
  exact : ∀ addr nid, m.byAddr.lookup addr = some nid ↔
    ∃ record, m.directory.lookup nid = some record ∧
      nodeAddr suite record.cert.memberPubkey = addr

variable {keys : Set (Bytes 32)}

section

variable (collisionless : Collisionless suite keys) (indexed : Indexed suite keys m)

include collisionless indexed

theorem Indexed.insertRecord (isKey : record.cert.memberPubkey ∈ keys)
    (bound : record.nodeId = nodeId suite record.cert.memberPubkey) :
    Indexed suite keys (m.insertRecord suite record) := by
  have self : (m.insertRecord suite record).directory.lookup record.nodeId = some record :=
    lookup_insertRecord_self
  have others {nid : NodeId} (other : nid ≠ record.nodeId) :
      (m.insertRecord suite record).directory.lookup nid = m.directory.lookup nid :=
    AList.lookup_insert_ne other
  have owned (nid : NodeId) (found : Record)
      (isFound : (m.insertRecord suite record).directory.lookup nid = some found) :
      nid = nodeId suite found.cert.memberPubkey ∧ found.cert.memberPubkey ∈ keys := by
    by_cases here : nid = record.nodeId
    · rw [here, self] at isFound
      obtain rfl := Option.some.inj isFound
      exact ⟨here.trans bound, isKey⟩
    · rw [others here] at isFound
      exact indexed.bound nid found isFound
  refine ⟨owned, fun addr nid => ?_⟩
  by_cases same : addr = nodeAddr suite record.cert.memberPubkey
  · subst same
    have entry : (m.insertRecord suite record).byAddr.lookup
        (nodeAddr suite record.cert.memberPubkey) = some record.nodeId := AList.lookup_insert _
    rw [entry]
    constructor
    · rintro ⟨⟩
      exact ⟨record, self, rfl⟩
    · rintro ⟨found, isFound, sameAddr⟩
      obtain ⟨isNode, alsoKey⟩ := owned nid found isFound
      rw [isNode, collisionless.nodeAddr alsoKey isKey sameAddr, ← bound]
  · have entry : (m.insertRecord suite record).byAddr.lookup addr = m.byAddr.lookup addr :=
      AList.lookup_insert_ne same
    rw [entry, indexed.exact]
    refine exists_congr fun found => ?_
    by_cases here : nid = record.nodeId
    · -- neither the record that was there nor the one that is there now has this address
      subst here
      rw [self]
      constructor
      · rintro ⟨isFound, isAddr⟩
        obtain ⟨isNode, alsoKey⟩ := indexed.bound _ found isFound
        have sameKey := collisionless.nodeId alsoKey isKey (isNode.symm.trans bound)
        exact absurd (isAddr.symm.trans (congrArg (nodeAddr suite) sameKey)) same
      · rintro ⟨isFound, isAddr⟩
        obtain rfl := Option.some.inj isFound
        exact absurd isAddr.symm same
    · rw [others here]

theorem Indexed.evict (gone : NodeId) : Indexed suite keys (m.evict suite gone).1 := by
  cases known : m.directory.lookup gone with
  | none =>
    unfold Membership.evict
    rw [known]
    exact indexed
  | some record =>
    obtain ⟨isNode, isKey⟩ := indexed.bound gone record known
    have left (nid : NodeId) : (m.evict suite gone).1.directory.lookup nid =
        if nid = gone then none else m.directory.lookup nid := lookup_evict gone nid
    have index : (m.evict suite gone).1.byAddr =
        m.byAddr.erase (nodeAddr suite record.cert.memberPubkey) := by
      unfold Membership.evict
      rw [known]
    refine ⟨fun nid found isFound => ?_, fun addr nid => ?_⟩
    · rw [left] at isFound
      split at isFound
      · cases isFound
      · exact indexed.bound nid found isFound
    · rw [index, left]
      by_cases same : addr = nodeAddr suite record.cert.memberPubkey
      · subst same
        rw [AList.lookup_erase]
        refine ⟨nofun, ?_⟩
        rintro ⟨found, isFound, sameAddr⟩
        split at isFound
        · cases isFound
        · rename_i other
          obtain ⟨foundNode, foundKey⟩ := indexed.bound nid found isFound
          have sameKey := collisionless.nodeAddr foundKey isKey sameAddr
          exact absurd (foundNode.trans ((congrArg (nodeId suite) sameKey).trans isNode.symm)) other
      · rw [AList.lookup_erase_ne same, indexed.exact]
        refine exists_congr fun found => ?_
        split
        · rename_i here
          subst here
          rw [known]
          refine ⟨?_, fun impossible => nomatch impossible.1⟩
          rintro ⟨isFound, isAddr⟩
          obtain rfl := Option.some.inj isFound
          exact absurd isAddr.symm same
        · rfl

theorem Indexed.ingestRecord
    (isKey : m.verifyRecord suite skew record now → record.cert.memberPubkey ∈ keys) :
    Indexed suite keys (m.ingestRecord suite skew record now).1 := by
  have swept : Indexed suite keys (m.sweepExpired suite skew now).1 :=
    sweepExpired_induction (fun _ nid held => held.evict collisionless nid) indexed
  rcases ingestRecord_cases with ⟨-, same⟩ | ⟨taken, inserted⟩
  · rw [same]
    exact swept
  · have verified := verifyRecord_of_takes taken
    obtain ⟨-, -, -, bound⟩ := Record.verify_eq_ok_iff.mp (of_decide_eq_true verified)
    rw [inserted]
    exact swept.insertRecord collisionless (isKey verified) bound

theorem Indexed.ingestAll
    (areKeys : ∀ record ∈ records, m.verifyRecord suite skew record now →
      record.cert.memberPubkey ∈ keys) :
    Indexed suite keys (m.ingestAll suite skew records now) := by
  induction records generalizing m with
  | nil => exact indexed
  | cons head rest ih =>
    refine ih
      (indexed.ingestRecord collisionless (areKeys head List.mem_cons_self)) ?_
    intro later member verified
    rw [verifyRecord_congr ingestRecord_settings] at verified
    exact areKeys later (List.mem_cons_of_mem _ member) verified

end

end Index

end Membership

/-! ### Runs -/

namespace History

section Trust

variable (suite : Suite) (skew : Nat) (keys : Set (Bytes 32))

def Among (history : History) : Event → Prop
  | .updateOwnCert cert => cert.memberPubkey ∈ keys
  | .gossip (.records records) now =>
    ∀ record ∈ records, history.membership.verifyRecord suite skew record now →
      record.cert.memberPubkey ∈ keys
  | _ => True

def Anchored (history : History) : Event → Prop
  | .updateOwnCert cert => nodeId suite cert.memberPubkey = history.membership.ownNodeId
  | .gossip (.records records) now =>
    ∀ record ∈ records, history.membership.verifyRecord suite skew record now →
      record.nodeId ≠ history.membership.ownNodeId →
      record.cert.SignedUnder suite.ed history.membership.caPubkeys
  | _ => True

/-- Every entry was checked when it was made. -/
structure Trusted (history : History) : Prop where
  checked : ∀ entry ∈ history.inserted, entry.1.nodeId ≠ history.membership.ownNodeId →
    history.membership.verifyCert suite skew entry.1.cert entry.1.cert.memberPubkey entry.2
  logged : ∀ nid record, history.membership.directory.lookup nid = some record →
    nid ≠ history.membership.ownNodeId → ∃ now, (record, now) ∈ history.inserted

variable {suite skew keys} {history : History}

theorem verifyCert_of_verifyRecord {m : Membership} {record : Record} {now : Nat}
    (verified : m.verifyRecord suite skew record now)
    (anchored : record.cert.SignedUnder suite.ed m.caPubkeys) :
    m.verifyCert suite skew record.cert record.cert.memberPubkey now := by
  obtain ⟨certified, -, -, -⟩ := Record.verify_eq_ok_iff.mp (of_decide_eq_true verified)
  exact decide_eq_true (verifyCert_eq_ok_iff.mpr ⟨anchored, (verifyCert_eq_ok_iff.mp certified).2⟩)

theorem Trusted.step {event : Event} (trusted : history.Trusted suite skew)
    (anchored : history.Anchored suite skew event) :
    (history.step suite skew event).Trusted suite skew := by
  cases event with
  | updateOwnCert cert =>
    unfold History.step
    dsimp only
    split
    · rename_i updated record renewed
      obtain ⟨rfl, -, bound, -⟩ := Membership.updateOwnCert_eq_some renewed
      refine ⟨trusted.checked, fun nid found isFound other => ?_⟩
      have elsewhere : nid ≠ record.nodeId := fun here => other (here.trans (bound.trans anchored))
      exact trusted.logged nid found ((AList.lookup_insert_ne elsewhere).symm.trans isFound) other
    · exact trusted
  | signRegistration seq =>
    unfold History.step
    dsimp only
    split <;> exact ⟨trusted.checked, trusted.logged⟩
  | gossip message now =>
    cases message with
    | digest entries => exact trusted
    | pullRequest ids => exact trusted
    | records records =>
      have kept : (history.membership.ingestAll suite skew records now).settings =
          history.membership.settings := Membership.ingestAll_settings records
      have nodeKept : (history.membership.ingestAll suite skew records now).ownNodeId =
          history.membership.ownNodeId := congrArg Membership.Settings.ownNodeId kept
      constructor
      · intro entry member other
        change (history.membership.ingestAll suite skew records now).verifyCert suite skew _ _ _
        rw [Membership.verifyCert_congr kept]
        change entry.1.nodeId ≠ (history.membership.ingestAll suite skew records now).ownNodeId
          at other
        rw [nodeKept] at other
        rcases List.mem_append.mp member with fresh | before
        · obtain ⟨record, taken, rfl⟩ := List.mem_map.mp fresh
          obtain ⟨listed, verified⟩ := Membership.verifyRecord_of_mem_takenOf taken
          exact verifyCert_of_verifyRecord verified (anchored record listed verified other)
        · exact trusted.checked entry before other
      · intro nid record isFound other
        change nid ≠ (history.membership.ingestAll suite skew records now).ownNodeId at other
        rw [nodeKept] at other
        rcases Membership.lookup_of_ingestAll isFound with before | taken
        · obtain ⟨earlier, logged⟩ := trusted.logged nid record before other
          exact ⟨earlier, List.mem_append_right _ logged⟩
        · exact ⟨now, List.mem_append_left _ (List.mem_map.mpr ⟨record, taken, rfl⟩)⟩
  | tickDigest nowMs obfOn jittered =>
    unfold History.step Membership.tickDigest
    dsimp only
    split <;> exact ⟨trusted.checked, trusted.logged⟩

theorem indexed_step {event : Event} (collisionless : Membership.Collisionless suite keys)
    (indexed : history.membership.Indexed suite keys)
    (among : history.Among suite skew keys event) :
    (history.step suite skew event).membership.Indexed suite keys := by
  cases event with
  | updateOwnCert cert =>
    unfold History.step
    dsimp only
    split
    · rename_i updated record renewed
      obtain ⟨rfl, isCert, bound, -⟩ := Membership.updateOwnCert_eq_some renewed
      have unchanged : Membership.Indexed suite keys { history.membership with ownCert := cert } :=
        ⟨indexed.bound, indexed.exact⟩
      refine unchanged.insertRecord collisionless ?_ ?_
      · rw [isCert]
        exact among
      · rw [isCert]
        exact bound
    · exact indexed
  | signRegistration seq =>
    unfold History.step
    dsimp only
    split <;> exact indexed
  | gossip message now =>
    cases message with
    | digest entries => exact indexed
    | pullRequest ids => exact indexed
    | records records => exact indexed.ingestAll collisionless among
  | tickDigest nowMs obfOn jittered =>
    unfold History.step Membership.tickDigest
    dsimp only
    split
    · exact indexed
    · exact ⟨indexed.bound, indexed.exact⟩

/-- In every run in which certificates of other nodes are signed by the authority itself, every
record of another node was put into the directory at a time when its certificate would have passed
in a handshake, and the index names exactly the addresses of the directory's records. -/
theorem directory_trustworthy (collisionless : Membership.Collisionless suite keys)
    {caPubkeys : List (Bytes 32)} {networkId : Bytes 16} {ownCert : Cert} {ownSignPriv : Bytes 32}
    {roots : RootSet} {ownEndpoints : List SocketAddr} {m : Membership}
    (created : Membership.new suite caPubkeys networkId ownCert ownSignPriv roots ownEndpoints =
      some m)
    (ownKey : ownCert.memberPubkey ∈ keys) (events : List Event)
    (admissible : Machine.Admissible (step suite skew)
      (fun history event =>
        history.Among suite skew keys event ∧ history.Anchored suite skew event)
      (start m) events) :
    let reached := Machine.run (step suite skew) (start m) events
    (∀ entry ∈ reached.inserted, entry.1.nodeId ≠ reached.membership.ownNodeId →
      reached.membership.verifyCert suite skew entry.1.cert entry.1.cert.memberPubkey entry.2) ∧
    (∀ nid record, reached.membership.directory.lookup nid = some record →
      nid ≠ reached.membership.ownNodeId → ∃ now, (record, now) ∈ reached.inserted) ∧
    ∀ addr nid, reached.membership.byAddr.lookup addr = some nid ↔
      ∃ record, reached.membership.directory.lookup nid = some record ∧
        nodeAddr suite record.cert.memberPubkey = addr := by
  obtain ⟨blank, own, noRecords, noIndex, isNew, isOwn, isCert, isOwnCert, bound⟩ :=
    Membership.new_eq_some created
  have ownIsKey : own.cert.memberPubkey ∈ keys := by rwa [isCert, isOwnCert]
  have blankIndexed : blank.Indexed suite keys := by
    refine ⟨fun nid record found => ?_, fun addr nid => ?_⟩
    · rw [noRecords, AList.lookup_empty] at found
      cases found
    · rw [noRecords, noIndex]
      simp
  have startIndexed : (start m).membership.Indexed suite keys := by
    rw [start, isNew]
    exact blankIndexed.insertRecord collisionless ownIsKey bound
  have startTrusted : (start m).Trusted suite skew := by
    refine ⟨fun _ inserted => absurd inserted List.not_mem_nil, fun nid record found other => ?_⟩
    have elsewhere : nid ≠ own.nodeId := fun here => other (here.trans isOwn)
    rw [start, isNew] at found
    have none := (AList.lookup_insert_ne elsewhere).symm.trans found
    rw [noRecords, AList.lookup_empty] at none
    cases none
  obtain ⟨trusted, indexed⟩ := Machine.run_invariant (step suite skew) _
    (fun history => history.Trusted suite skew ∧ history.membership.Indexed suite keys)
    (fun history event both allowed =>
      ⟨both.1.step allowed.2, indexed_step collisionless both.2 allowed.1⟩)
    (start m) events ⟨startTrusted, startIndexed⟩ admissible
  exact ⟨trusted.checked, trusted.logged, indexed.exact⟩

end Trust

open Transparent

theorem collisionless_two : Membership.Collisionless suite {all 32 1, all 32 2} := by
  constructor
  · rintro first (rfl | rfl) second (rfl | rfl) same
    · rfl
    · exact absurd same (by decide +kernel)
    · exact absurd same (by decide +kernel)
    · rfl
  · rintro first (rfl | rfl) second (rfl | rfl) same
    · rfl
    · exact absurd same (by decide +kernel)
    · exact absurd same (by decide +kernel)
    · rfl

/-- A record of member 2 comes in. -/
theorem member_record_trusted :
    let entry := record (cert 2 9 2000) 2 0 1
    let reached := Machine.run (step suite clockSkewSecs) (start member)
      [.gossip (.records [entry]) 1500]
    reached.inserted = [(entry, 1500)] ∧
    reached.membership.verifyCert suite clockSkewSecs entry.cert (all 32 2) 1500 ∧
    ∀ addr nid, reached.membership.byAddr.lookup addr = some nid ↔
      ∃ record, reached.membership.directory.lookup nid = some record ∧
        nodeAddr suite record.cert.memberPubkey = addr := by
  intro entry reached
  have taken : reached.inserted = [(entry, 1500)] := by decide +kernel
  obtain ⟨checked, -, index⟩ := directory_trustworthy collisionless_two new_member (Or.inl rfl)
    [.gossip (.records [entry]) 1500] (by
      refine ⟨⟨?_, ?_⟩, trivial⟩
      · rintro record listed _
        obtain rfl := List.mem_singleton.mp listed
        exact Or.inr rfl
      · rintro record listed _ _
        obtain rfl := List.mem_singleton.mp listed
        decide +kernel)
  exact ⟨taken, checked (entry, 1500) (taken ▸ List.mem_singleton_self _) (by decide +kernel),
    index⟩

/-- Whoever has the key of the root node makes up a certificate for member 2. The record is put into
the directory at a time when the certificate does not pass in a handshake. -/
theorem root_key_admits_stranger :
    let entry := record (cert 2 8 2000) 2 0 1
    let reached := Machine.run (step suite clockSkewSecs) (start member)
      [.gossip (.records [entry]) 1500]
    reached.inserted = [(entry, 1500)] ∧
    reached.membership.directory.lookup entry.nodeId = some entry ∧
    entry.nodeId ≠ reached.membership.ownNodeId ∧
    reached.membership.verifyCert suite clockSkewSecs entry.cert (all 32 2) 1500 = false := by
  decide +kernel

end History

end Yip.Members
