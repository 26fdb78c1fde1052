/-
This file is about whole runs of a node's directory: certificates are renewed, registrations are
signed and gossip comes in, in any order.
-/

import Yip.Members.Directory

namespace Yip.Members

open Crypto

/-- A membership, with what it signed and took in. -/
structure History where
  membership : Membership
  signed : List Record
  regSeq : Nat
  inserted : List (Record × Nat)

inductive Event where
  | updateOwnCert (cert : Cert)
  | signRegistration (seq : Nat)
  | gossip (message : GossipMsg) (now : Nat)
  | tickDigest (nowMs : Nat) (obfOn : Bool) (jittered : Nat)

namespace Membership

variable (suite : Suite) (skew : Nat)

def takes (m : Membership) (record : Record) (now : Nat) : Bool :=
  m.verifyRecord suite skew record now &&
    ((m.sweepExpired suite skew now).1.insertIfNewer suite record).2

def takenOf (m : Membership) (now : Nat) : List Record → List Record
  | [] => []
  | record :: rest =>
    let later := takenOf (m.ingestRecord suite skew record now).1 now rest
    if m.takes suite skew record now then record :: later else later

end Membership

namespace History

variable (suite : Suite) (skew : Nat)

def start (m : Membership) : History :=
  ⟨m, (m.directory.lookup m.ownNodeId).toList, 0, []⟩

def step (history : History) : Event → History
  | .updateOwnCert cert =>
    match history.membership.updateOwnCert suite cert with
    | some (m, record) => { history with membership := m, signed := record :: history.signed }
    | none => history
  | .signRegistration seq =>
    match history.membership.signRegistration suite seq with
    | some record => { history with signed := record :: history.signed, regSeq := seq }
    | none => history
  | .gossip message now =>
    { history with
      membership := (history.membership.onGossip suite skew message now).1
      inserted := match message with
        | .records records =>
          (history.membership.takenOf suite skew now records).map (·, now) ++ history.inserted
        | _ => history.inserted }
  | .tickDigest nowMs obfOn jittered =>
    { history with membership := (history.membership.tickDigest nowMs obfOn jittered).1 }

end History

/-! ### Single operations -/

namespace Membership

variable {suite : Suite} {skew : Nat} {m : Membership} {record : Record} {now : Nat}

theorem new_eq_some {caPubkeys : List (Bytes 32)} {networkId : Bytes 16} {ownCert : Cert}
    {ownSignPriv : Bytes 32} {roots : RootSet} {ownEndpoints : List SocketAddr}
    (created : new suite caPubkeys networkId ownCert ownSignPriv roots ownEndpoints = some m) :
    ∃ (blank : Membership) (own : Record), blank.directory = ∅ ∧ blank.byAddr = ∅ ∧
      m = blank.insertRecord suite own ∧
      own.nodeId = m.ownNodeId ∧ own.cert = m.ownCert ∧ m.ownCert = ownCert ∧
      own.nodeId = nodeId suite own.cert.memberPubkey := by
  obtain ⟨own, built, rfl⟩ := Option.map_eq_some_iff.mp created
  obtain ⟨same, -, -, signed⟩ := buildSignedRecord_eq_some built
  have bound := signed.nodeId
  rw [same] at bound
  exact ⟨_, own, rfl, rfl, rfl, bound, same, rfl, signed.nodeId⟩

theorem updateOwnCert_eq_some {cert : Cert} {updated : Membership}
    (renewed : m.updateOwnCert suite cert = some (updated, record)) :
    updated = insertRecord suite { m with ownCert := cert } record ∧ record.cert = cert ∧
      record.nodeId = nodeId suite cert.memberPubkey ∧
      record.seq = ((m.directory.lookup m.ownNodeId).map fun own =>
        saturatingAdd own.seq 1).getD initialSeq := by
  obtain ⟨built, isBuilt, same⟩ := Option.map_eq_some_iff.mp renewed
  obtain ⟨rfl, rfl⟩ := Prod.mk.inj same
  obtain ⟨isCert, -, seq, signed⟩ := buildSignedRecord_eq_some isBuilt
  have bound := signed.nodeId
  rw [isCert] at bound
  exact ⟨rfl, isCert, bound, seq⟩

theorem signRegistration_eq_some {seq : Nat} (signed : m.signRegistration suite seq = some record) :
    record.cert = m.ownCert ∧ record.seq = seq := by
  obtain ⟨isCert, -, isSeq, -⟩ := buildSignedRecord_eq_some signed
  exact ⟨isCert, isSeq⟩

theorem lookup_insertRecord_self : (m.insertRecord suite record).directory.lookup record.nodeId =
    some record := AList.lookup_insert _

theorem own_ingestRecord (suite : Suite) (skew : Nat) (record : Record) (now : Nat) {own : Record}
    (entry : m.directory.lookup m.ownNodeId = some own) :
    (m.ingestRecord suite skew record now).1.directory.lookup m.ownNodeId = some own ∨
      ((m.ingestRecord suite skew record now).1.directory.lookup m.ownNodeId = some record ∧
        record.nodeId = m.ownNodeId ∧ m.verifyRecord suite skew record now ∧
        own.seq < record.seq) := by
  have standing : m.stands suite skew now own := by
    simp [stands, m.keyed _ _ entry]
  have kept : LatestWins.sweep (m.stands suite skew now) (fun nid => m.directory.lookup nid)
      m.ownNodeId = some own := LatestWins.sweep_eq_some entry standing
  by_cases verified : m.verifyRecord suite skew record now
  · have stored := congrFun (lookup_ingestRecord verified) m.ownNodeId
    rw [stored]
    by_cases here : record.nodeId = m.ownNodeId
    · rw [LatestWins.ingest_at here, kept]
      by_cases behind : record.seq ≤ own.seq
      · exact Or.inl (LatestWins.later_of_le behind)
      · refine Or.inr ⟨LatestWins.later_of_lt ?_, here, verified, not_le.mp behind⟩
        rintro current ⟨⟩
        exact not_le.mp behind
    · rw [LatestWins.ingest_elsewhere here, kept]
      exact Or.inl rfl
  · have stored := congrFun
      (lookup_ingestRecord_of_unverified (Bool.eq_false_iff.mpr verified)) m.ownNodeId
    exact Or.inl (stored.trans kept)

end Membership

/-! ### The node's own record -/

namespace History

section OwnRecord

variable (suite : Suite) (skew : Nat)

def Genuine (history : History) : Event → Prop
  | .signRegistration seq => history.regSeq < seq
  | .gossip (.records records) now =>
    ∀ record ∈ records, record.nodeId = history.membership.ownNodeId →
      history.membership.verifyRecord suite skew record now → record ∈ history.signed
  | _ => True

/-- A new certificate is for this node, whose entry is numbered no lower than its registrations. -/
def Settled (history : History) : Event → Prop
  | .updateOwnCert cert =>
    nodeId suite cert.memberPubkey = history.membership.ownNodeId ∧
      ∀ own ∈ history.membership.directory.lookup history.membership.ownNodeId,
        history.regSeq ≤ own.seq ∧ own.seq < u64Limit - 1
  | _ => True

instance (history : History) (event : Event) : Decidable (history.Genuine suite skew event) := by
  unfold Genuine
  split <;> infer_instance

instance (history : History) (event : Event) : Decidable (history.Settled suite event) := by
  unfold Settled
  split <;> infer_instance

/-- The node's own entry shows its certificate. -/
structure Current (m : Membership) (signed : List Record) (regSeq : Nat) (own : Record) :
    Prop where
  entry : m.directory.lookup m.ownNodeId = some own
  cert : own.cert = m.ownCert
  behind : ∀ record ∈ signed, record.seq ≤ own.seq ∨ record.cert = m.ownCert
  numbered : ∀ record ∈ signed, record.seq ≤ max own.seq regSeq

variable {suite skew} {m : Membership} {signed : List Record} {regSeq : Nat} {own : Record}

theorem Current.ingestRecord {record : Record} {now : Nat} (current : Current m signed regSeq own)
    (genuine : record.nodeId = m.ownNodeId → m.verifyRecord suite skew record now →
      record ∈ signed) :
    ∃ own, Current (m.ingestRecord suite skew record now).1 signed regSeq own := by
  have nodeKept : (m.ingestRecord suite skew record now).1.ownNodeId = m.ownNodeId :=
    congrArg Membership.Settings.ownNodeId Membership.ingestRecord_settings
  have certKept : (m.ingestRecord suite skew record now).1.ownCert = m.ownCert :=
    congrArg Membership.Settings.ownCert Membership.ingestRecord_settings
  rcases Membership.own_ingestRecord suite skew record now current.entry with
    same | ⟨replaced, here, verified, ahead⟩
  · refine ⟨own, ?_, ?_, ?_, current.numbered⟩
    · rw [nodeKept]
      exact same
    · rw [certKept]
      exact current.cert
    · rw [certKept]
      exact current.behind
  · -- the node signed it, and it is newer than the own record, so under the current certificate
    have isSigned := genuine here verified
    refine ⟨record, ?_, ?_, ?_, ?_⟩
    · rw [nodeKept]
      exact replaced
    · rw [certKept]
      exact (current.behind record isSigned).resolve_left (not_le.mpr ahead)
    · intro earlier isEarlier
      rw [certKept]
      exact (current.behind earlier isEarlier).imp_left (·.trans ahead.le)
    · intro earlier isEarlier
      exact (current.numbered earlier isEarlier).trans (max_le_max_right regSeq ahead.le)

theorem Current.ingestAll {records : List Record} {now : Nat}
    (current : Current m signed regSeq own)
    (genuine : ∀ record ∈ records, record.nodeId = m.ownNodeId →
      m.verifyRecord suite skew record now → record ∈ signed) :
    ∃ own, Current (m.ingestAll suite skew records now) signed regSeq own := by
  induction records generalizing m own with
  | nil => exact ⟨own, current⟩
  | cons record rest ih =>
    obtain ⟨next, stillCurrent⟩ := current.ingestRecord (genuine record List.mem_cons_self)
    have nodeKept : (m.ingestRecord suite skew record now).1.ownNodeId = m.ownNodeId :=
      congrArg Membership.Settings.ownNodeId Membership.ingestRecord_settings
    refine ih stillCurrent fun later member here verified => ?_
    rw [nodeKept] at here
    rw [Membership.verifyRecord_congr Membership.ingestRecord_settings] at verified
    exact genuine later (List.mem_cons_of_mem _ member) here verified

theorem Current.lt_of_update {cert : Cert} {updated : Membership} {record : Record}
    (current : Current m signed regSeq own) (registered : regSeq ≤ own.seq)
    (room : own.seq < u64Limit - 1)
    (renewed : m.updateOwnCert suite cert = some (updated, record)) :
    record.seq = own.seq + 1 ∧ ∀ earlier ∈ signed, earlier.seq < record.seq := by
  obtain ⟨-, -, -, seq⟩ := Membership.updateOwnCert_eq_some renewed
  rw [current.entry, Option.map_some, Option.getD_some, saturatingAdd,
    Nat.min_eq_left (by omega)] at seq
  refine ⟨seq, fun earlier isEarlier => ?_⟩
  have bound := current.numbered earlier isEarlier
  rw [max_eq_left registered] at bound
  omega

theorem Current.updateOwnCert {cert : Cert} {updated : Membership} {record : Record}
    (current : Current m signed regSeq own) (here : nodeId suite cert.memberPubkey = m.ownNodeId)
    (registered : regSeq ≤ own.seq) (room : own.seq < u64Limit - 1)
    (renewed : m.updateOwnCert suite cert = some (updated, record)) :
    Current updated (record :: signed) regSeq record := by
  obtain ⟨seq, above⟩ := current.lt_of_update registered room renewed
  obtain ⟨rfl, isCert, bound, -⟩ := Membership.updateOwnCert_eq_some renewed
  have numbered : ∀ earlier ∈ record :: signed, earlier.seq ≤ record.seq :=
    List.forall_mem_cons.mpr ⟨le_rfl, fun earlier before => (above earlier before).le⟩
  refine ⟨?_, isCert, fun earlier isEarlier => Or.inl (numbered earlier isEarlier),
    fun earlier isEarlier => (numbered earlier isEarlier).trans (le_max_left _ _)⟩
  have isOwn : record.nodeId = m.ownNodeId := bound.trans here
  rw [← isOwn]
  exact Membership.lookup_insertRecord_self

theorem Current.signRegistration {seq : Nat} {record : Record}
    (current : Current m signed regSeq own) (increasing : regSeq < seq)
    (registered : m.signRegistration suite seq = some record) :
    Current m (record :: signed) seq own := by
  obtain ⟨isCert, isSeq⟩ := Membership.signRegistration_eq_some registered
  refine ⟨current.entry, current.cert,
    List.forall_mem_cons.mpr ⟨Or.inr isCert, current.behind⟩,
    List.forall_mem_cons.mpr ⟨isSeq ▸ le_max_right _ _, fun earlier before => ?_⟩⟩
  exact (current.numbered earlier before).trans (max_le_max_left _ increasing.le)

theorem Current.step {history : History} {event : Event} {own : Record}
    (current : Current history.membership history.signed history.regSeq own)
    (genuine : history.Genuine suite skew event) (settled : history.Settled suite event) :
    ∃ own, Current (history.step suite skew event).membership
      (history.step suite skew event).signed (history.step suite skew event).regSeq own := by
  cases event with
  | updateOwnCert cert =>
    obtain ⟨here, room⟩ := settled
    obtain ⟨registered, below⟩ := room own current.entry
    generalize isAfter : history.step suite skew (.updateOwnCert cert) = after
    unfold History.step at isAfter
    dsimp only at isAfter
    split at isAfter
    · rename_i updated record renewed
      subst isAfter
      exact ⟨record, current.updateOwnCert here registered below renewed⟩
    · subst isAfter
      exact ⟨own, current⟩
  | signRegistration seq =>
    generalize isAfter : history.step suite skew (.signRegistration seq) = after
    unfold History.step at isAfter
    dsimp only at isAfter
    split at isAfter
    · rename_i record registered
      subst isAfter
      exact ⟨own, current.signRegistration genuine registered⟩
    · subst isAfter
      exact ⟨own, current⟩
  | gossip message now =>
    cases message with
    | digest entries => exact ⟨own, current⟩
    | pullRequest ids => exact ⟨own, current⟩
    | records records => exact current.ingestAll genuine
  | tickDigest nowMs obfOn jittered =>
    refine ⟨own, ?_⟩
    change Current (history.membership.tickDigest nowMs obfOn jittered).1 _ _ _
    unfold Membership.tickDigest
    split
    · exact current
    · exact { current with }

theorem current_start {caPubkeys : List (Bytes 32)} {networkId : Bytes 16} {ownCert : Cert}
    {ownSignPriv : Bytes 32} {roots : RootSet} {ownEndpoints : List SocketAddr}
    (created : Membership.new suite caPubkeys networkId ownCert ownSignPriv roots ownEndpoints =
      some m) : ∃ own, Current (start m).membership (start m).signed (start m).regSeq own := by
  obtain ⟨blank, own, -, -, isNew, isOwn, isCert, -, -⟩ := Membership.new_eq_some created
  have entry : m.directory.lookup m.ownNodeId = some own := by
    rw [← isOwn, isNew]
    exact Membership.lookup_insertRecord_self
  refine ⟨own, entry, isCert, ?_, ?_⟩
  · intro record isSigned
    rw [start, entry, Option.toList_some, List.mem_singleton] at isSigned
    exact Or.inr (isSigned ▸ isCert)
  · intro record isSigned
    rw [start, entry, Option.toList_some, List.mem_singleton] at isSigned
    exact isSigned ▸ le_max_left _ _

/-- In every run in which a renewal never happens while a registration is ahead of the own record,
the own record carries the current certificate, and a renewal gets a number above everything the
node has signed. -/
theorem renewal_supersedes {caPubkeys : List (Bytes 32)} {networkId : Bytes 16} {ownCert : Cert}
    {ownSignPriv : Bytes 32} {roots : RootSet} {ownEndpoints : List SocketAddr}
    (created : Membership.new suite caPubkeys networkId ownCert ownSignPriv roots ownEndpoints =
      some m)
    (events : List Event)
    (admissible : Machine.Admissible (step suite skew)
      (fun history event => history.Genuine suite skew event ∧ history.Settled suite event)
      (start m) events) :
    let reached := Machine.run (step suite skew) (start m) events
    (∃ own, reached.membership.directory.lookup reached.membership.ownNodeId = some own ∧
      own.cert = reached.membership.ownCert) ∧
    ∀ cert, reached.Settled suite (.updateOwnCert cert) → ∀ updated record,
      reached.membership.updateOwnCert suite cert = some (updated, record) →
      ∀ earlier ∈ reached.signed, earlier.seq < record.seq := by
  obtain ⟨own, current⟩ := Machine.run_invariant (step suite skew) _
    (fun history => ∃ own, Current history.membership history.signed history.regSeq own)
    (fun history event ⟨own, current⟩ allowed => current.step allowed.1 allowed.2)
    (start m) events (current_start created) admissible
  refine ⟨⟨own, current.entry, current.cert⟩, ?_⟩
  intro cert settled updated record renewed
  obtain ⟨registered, below⟩ := settled.2 own current.entry
  exact (current.lt_of_update registered below renewed).2

end OwnRecord

open Transparent

def registration (cert : Cert) (seq : Nat) : Record :=
  ⟨nodeId suite cert.memberPubkey, cert, [], seq, all 64 1⟩

/-- The certificate is renewed, a registration is signed and comes back by gossip, and the
certificate is renewed again. -/
theorem renewal_after_return_supersedes :
    let reached := Machine.run (step suite clockSkewSecs) (start member)
      [.updateOwnCert (cert 1 9 3000), .signRegistration 5,
        .gossip (.records [registration (cert 1 9 3000) 5]) 1500]
    (∃ own, reached.membership.directory.lookup reached.membership.ownNodeId = some own ∧
      own.cert = reached.membership.ownCert) ∧
    ∀ updated record,
      reached.membership.updateOwnCert suite (cert 1 9 4000) = some (updated, record) →
      ∀ earlier ∈ reached.signed, earlier.seq < record.seq := by
  have holds := renewal_supersedes new_member
    [.updateOwnCert (cert 1 9 3000), .signRegistration 5,
      .gossip (.records [registration (cert 1 9 3000) 5]) 1500]
    (show Machine.Admissible (step suite clockSkewSecs) _ _ _ by decide +kernel)
  exact ⟨holds.1, holds.2 (cert 1 9 4000) (by decide +kernel)⟩

/-- The certificate is renewed after a registration was signed: the record of the renewal has the
smaller number, and when the registration comes back by gossip the own record carries the old
certificate again. -/
theorem registration_outlives_renewal :
    let events := [.signRegistration 1700000000001, .updateOwnCert (cert 1 9 3000),
      .gossip (.records [registration (cert 1 9 2000) 1700000000001]) 1500]
    let reached := Machine.run (step suite clockSkewSecs) (start member) events
    Machine.Admissible (step suite clockSkewSecs)
      (fun history event => history.Genuine suite clockSkewSecs event) (start member) events ∧
    reached.signed.map (·.seq) = [1, 1700000000001, initialSeq] ∧
    (reached.membership.directory.lookup reached.membership.ownNodeId).map (·.cert) =
      some (cert 1 9 2000) ∧
    reached.membership.ownCert = cert 1 9 3000 := by
  decide +kernel

end History

end Yip.Members
