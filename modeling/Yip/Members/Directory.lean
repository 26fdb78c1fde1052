/-
This file models the member directory of a node (`membership.rs` of the daemon): the records it
has heard of, keyed by node id, with an index by mesh address.
-/

import Yip.Members.Record
import Yip.Lib.LatestWins
import Mathlib.Data.List.AList

namespace Yip.Members

open Crypto

def clockSkewSecs : Nat := 300

def gossipIntervalMs : Nat := 5000

def maxGossipRecordsPerReply : Nat := 32

def maxGossipDigestEntries : Nat := 40

def initialSeq : Nat := 0

inductive GossipMsg where
  | digest (entries : List (NodeId × Nat))
  | pullRequest (ids : List NodeId)
  | records (records : List Record)
  deriving DecidableEq

/-- The directory, indexed by address, with the keys it is checked against. -/
structure Membership where
  directory : AList fun _ : NodeId => Record
  byAddr : AList fun _ : Bytes 16 => NodeId
  caPubkeys : List (Bytes 32)
  networkId : Bytes 16
  roots : RootSet
  ownNodeId : NodeId
  ownCert : Cert
  ownEndpoints : List SocketAddr
  signPriv : Bytes 32
  lastDigestMs : Option Nat
  digestMs : Nat
  keyed : ∀ nid record, directory.lookup nid = some record → record.nodeId = nid

namespace Membership

variable (suite : Suite) (skew : Nat)

/-! ### The two indices -/

theorem keyed_insert {directory : AList fun _ : NodeId => Record}
    (keyed : ∀ nid record, directory.lookup nid = some record → record.nodeId = nid)
    (added : Record) (nid : NodeId) (record : Record)
    (found : (directory.insert added.nodeId added).lookup nid = some record) :
    record.nodeId = nid := by
  by_cases here : nid = added.nodeId
  · subst here
    rw [AList.lookup_insert] at found
    rw [Option.some.inj found]
  · rw [AList.lookup_insert_ne here] at found
    exact keyed nid record found

theorem keyed_erase {directory : AList fun _ : NodeId => Record}
    (keyed : ∀ nid record, directory.lookup nid = some record → record.nodeId = nid)
    (gone nid : NodeId) (record : Record)
    (found : (directory.erase gone).lookup nid = some record) : record.nodeId = nid := by
  by_cases here : nid = gone
  · subst here
    rw [AList.lookup_erase] at found
    cases found
  · rw [AList.lookup_erase_ne here] at found
    exact keyed nid record found

def insertRecord (m : Membership) (record : Record) : Membership :=
  { m with
    byAddr := m.byAddr.insert (nodeAddr suite record.cert.memberPubkey) record.nodeId
    directory := m.directory.insert record.nodeId record
    keyed := keyed_insert m.keyed record }

/-- Enters a record with a higher sequence number than the one there is. -/
def insertIfNewer (m : Membership) (record : Record) : Membership × Bool :=
  match m.directory.lookup record.nodeId with
  | some existing =>
    if record.seq ≤ existing.seq then (m, false) else (m.insertRecord suite record, true)
  | none => (m.insertRecord suite record, true)

def evict (m : Membership) (nid : NodeId) : Membership × Bool :=
  match m.directory.lookup nid with
  | some record =>
    ({ m with
        directory := m.directory.erase nid
        byAddr := m.byAddr.erase (nodeAddr suite record.cert.memberPubkey)
        keyed := keyed_erase m.keyed nid }, true)
  | none => (m, false)

/-! ### Checks -/

def verifyCert (m : Membership) (cert : Cert) (staticKey : Bytes 32) (now : Nat) : Bool :=
  Members.verifyCert suite.ed cert m.caPubkeys m.networkId staticKey now skew = some (.ok ())

def recordAnchors (m : Membership) : List (Bytes 32) :=
  m.roots.roots.foldl (fun keys root => if root.1 ∈ keys then keys else keys ++ [root.1])
    m.caPubkeys

def verifyRecord (m : Membership) (record : Record) (now : Nat) : Bool :=
  record.verify suite m.recordAnchors m.networkId now skew = some (.ok ())

def expired (m : Membership) (now : Nat) : List NodeId :=
  (m.directory.entries.filter fun entry =>
    entry.1 ≠ m.ownNodeId ∧
      ¬m.verifyCert suite skew entry.2.cert entry.2.cert.memberPubkey now).map (·.1)

/-- Evicts the members whose certificates have run out, except this node. -/
def sweepExpired (m : Membership) (now : Nat) : Membership × Bool :=
  (m.expired suite skew now).foldl
    (fun state nid =>
      let (m, gone) := state.1.evict suite nid
      (m, state.2 || gone))
    (m, false)

/-! ### Operations -/

def new (caPubkeys : List (Bytes 32)) (networkId : Bytes 16) (ownCert : Cert)
    (ownSignPriv : Bytes 32) (roots : RootSet) (ownEndpoints : List SocketAddr) :
    Option Membership :=
  (buildSignedRecord suite ownCert ownEndpoints initialSeq ownSignPriv).map fun ownRecord =>
    insertRecord suite
      { directory := ∅
        byAddr := ∅
        caPubkeys := caPubkeys
        networkId := networkId
        roots := roots
        ownNodeId := nodeId suite ownCert.memberPubkey
        ownCert := ownCert
        ownEndpoints := ownEndpoints
        signPriv := ownSignPriv
        lastDigestMs := none
        digestMs := gossipIntervalMs
        keyed := by simp }
      ownRecord

def updateOwnCert (m : Membership) (newCert : Cert) : Option (Membership × Record) :=
  let nextSeq := ((m.directory.lookup m.ownNodeId).map fun record =>
    saturatingAdd record.seq 1).getD initialSeq
  (buildSignedRecord suite newCert m.ownEndpoints nextSeq m.signPriv).map fun record =>
    (insertRecord suite { m with ownCert := newCert } record, record)

def signRegistration (m : Membership) (seq : Nat) : Option Record :=
  buildSignedRecord suite m.ownCert m.ownEndpoints seq m.signPriv

def ingestRecord (m : Membership) (record : Record) (now : Nat) : Membership × Bool :=
  let (m, swept) := m.sweepExpired suite skew now
  if m.verifyRecord suite skew record now then
    let (m, inserted) := m.insertIfNewer suite record
    (m, swept || inserted)
  else (m, swept)

def ingestAll (m : Membership) (records : List Record) (now : Nat) : Membership :=
  records.foldl (fun m record => (m.ingestRecord suite skew record now).1) m

/-- Takes in records, or answers a digest or a request for records. -/
def onGossip (m : Membership) (message : GossipMsg) (now : Nat) : Membership × List GossipMsg :=
  match message with
  | .digest entries =>
    let want := entries.filterMap fun (nid, seq) =>
      if (m.directory.lookup nid).any (seq ≤ ·.seq) then none else some nid
    (m, if want = [] then [] else [.pullRequest want])
  | .pullRequest ids =>
    (m, ((ids.filterMap m.directory.lookup).toChunks maxGossipRecordsPerReply).map .records)
  | .records records =>
    (m.ingestAll suite skew records now, [])

def tickDigest (m : Membership) (nowMs : Nat) (obfOn : Bool) (jittered : Nat) :
    Membership × List GossipMsg :=
  if m.lastDigestMs.any (nowMs - · < m.digestMs) then (m, [])
  else
    ({ m with
        lastDigestMs := some nowMs
        digestMs := if obfOn then jittered else gossipIntervalMs },
      ((m.directory.entries.map fun entry => (entry.1, entry.2.seq)).toChunks
        maxGossipDigestEntries).map .digest)

def resolve (m : Membership) (addr : Bytes 16) : Option (Bytes 32 × List SocketAddr) := do
  let nid ← m.byAddr.lookup addr
  let record ← m.directory.lookup nid
  return (record.cert.memberPubkey, record.endpoints)

/-- Whether a member is still admitted. -/
def memberOrAdmittedCertValid (m : Membership) (pubkey : Bytes 32)
    (admittedNotAfter : Option Nat) (now : Nat) : Bool :=
  if m.roots.roots.any fun root => root.1 = pubkey then true
  else match m.directory.lookup (nodeId suite pubkey) with
    | some record => m.verifyCert suite skew record.cert pubkey now
    | none => admittedNotAfter.any fun notAfter => now ≤ saturatingAdd notAfter skew

def memberCertValid (m : Membership) (pubkey : Bytes 32) (now : Nat) : Bool :=
  m.memberOrAdmittedCertValid suite skew pubkey none now

/-! ### What stays -/

structure Settings where
  caPubkeys : List (Bytes 32)
  networkId : Bytes 16
  roots : RootSet
  ownNodeId : NodeId
  ownCert : Cert
  ownEndpoints : List SocketAddr
  signPriv : Bytes 32

def settings (m : Membership) : Settings :=
  ⟨m.caPubkeys, m.networkId, m.roots, m.ownNodeId, m.ownCert, m.ownEndpoints, m.signPriv⟩

variable {suite skew} {m other : Membership} {record : Record} {now : Nat}

theorem verifyCert_congr (same : other.settings = m.settings) :
    other.verifyCert suite skew = m.verifyCert suite skew := by
  have keys : other.caPubkeys = m.caPubkeys := congrArg Settings.caPubkeys same
  have network : other.networkId = m.networkId := congrArg Settings.networkId same
  unfold verifyCert
  rw [keys, network]

theorem verifyRecord_congr (same : other.settings = m.settings) :
    other.verifyRecord suite skew = m.verifyRecord suite skew := by
  have keys : other.caPubkeys = m.caPubkeys := congrArg Settings.caPubkeys same
  have network : other.networkId = m.networkId := congrArg Settings.networkId same
  have roots : other.roots = m.roots := congrArg Settings.roots same
  unfold verifyRecord recordAnchors
  rw [keys, network, roots]

@[simp]
theorem insertIfNewer_settings : (m.insertIfNewer suite record).1.settings = m.settings := by
  unfold insertIfNewer
  split
  · split <;> rfl
  · rfl

@[simp]
theorem evict_settings {nid : NodeId} : (m.evict suite nid).1.settings = m.settings := by
  unfold evict
  split <;> rfl

/-! ### Sweeping -/

theorem lookup_evict (nid place : NodeId) :
    (m.evict suite nid).1.directory.lookup place =
      if place = nid then none else m.directory.lookup place := by
  unfold evict
  split
  · split
    · rename_i here
      rw [here]
      exact AList.lookup_erase _ _
    · rename_i elsewhere
      exact AList.lookup_erase_ne elsewhere
  · rename_i unknown
    split
    · rename_i here
      rw [here]
      exact unknown
    · rfl

theorem sweepExpired_fst :
    (m.sweepExpired suite skew now).1 =
      (m.expired suite skew now).foldl (fun m nid => (m.evict suite nid).1) m := by
  suffices ∀ (nids : List NodeId) (state : Membership × Bool),
      (nids.foldl (fun state nid => ((state.1.evict suite nid).1,
        state.2 || (state.1.evict suite nid).2)) state).1 =
      nids.foldl (fun m nid => (m.evict suite nid).1) state.1 from this _ _
  intro nids
  induction nids with
  | nil => exact fun _ => rfl
  | cons nid rest ih => exact fun state => ih _

theorem sweepExpired_induction {motive : Membership → Prop}
    (evicted : ∀ m nid, motive m → motive (m.evict suite nid).1) (holds : motive m) :
    motive (m.sweepExpired suite skew now).1 := by
  rw [sweepExpired_fst]
  generalize m.expired suite skew now = nids
  induction nids generalizing m with
  | nil => exact holds
  | cons nid rest ih => exact ih (evicted m nid holds)

@[simp]
theorem sweepExpired_settings : (m.sweepExpired suite skew now).1.settings = m.settings :=
  sweepExpired_induction (motive := fun swept => swept.settings = m.settings)
    (fun _ _ same => evict_settings.trans same) rfl

def stands (m : Membership) (suite : Suite) (skew now : Nat) (record : Record) : Bool :=
  record.nodeId = m.ownNodeId ∨ m.verifyCert suite skew record.cert record.cert.memberPubkey now

theorem stands_congr (same : other.settings = m.settings) :
    other.stands suite skew now = m.stands suite skew now := by
  funext record
  have own : other.ownNodeId = m.ownNodeId := congrArg Settings.ownNodeId same
  unfold stands
  rw [verifyCert_congr same, own]

theorem mem_expired {nid : NodeId} :
    nid ∈ m.expired suite skew now ↔
      ∃ record, m.directory.lookup nid = some record ∧ m.stands suite skew now record = false := by
  unfold expired
  simp only [List.mem_map, List.mem_filter, Sigma.exists, decide_eq_true_eq]
  constructor
  · rintro ⟨_, record, ⟨entry, other, invalid⟩, rfl⟩
    have found := AList.mem_lookup_iff.mpr entry
    refine ⟨record, found, ?_⟩
    simp [stands, m.keyed _ _ found, other, invalid]
  · rintro ⟨record, found, falls⟩
    rw [stands, decide_eq_false_iff_not, not_or, m.keyed nid record found] at falls
    exact ⟨nid, record, ⟨AList.mem_lookup_iff.mp found, falls.1, falls.2⟩, rfl⟩

theorem lookup_sweepExpired :
    (m.sweepExpired suite skew now).1.directory.lookup =
      LatestWins.sweep (m.stands suite skew now) m.directory.lookup := by
  have evictions (nids : List NodeId) (m : Membership) (place : NodeId) :
      (nids.foldl (fun m nid => (m.evict suite nid).1) m).directory.lookup place =
        if place ∈ nids then none else m.directory.lookup place := by
    induction nids generalizing m with
    | nil => rfl
    | cons nid rest ih =>
      rw [List.foldl_cons, ih, lookup_evict]
      by_cases later : place ∈ rest <;> by_cases here : place = nid <;> simp [later, here]
  funext place
  rw [sweepExpired_fst, evictions, LatestWins.sweep]
  cases found : m.directory.lookup place with
  | none => simp
  | some record =>
    by_cases standing : m.stands suite skew now record
    · rw [if_neg, Option.filter_some_pos standing]
      rw [mem_expired]
      rintro ⟨again, isAgain, falls⟩
      rw [found] at isAgain
      rw [← Option.some.inj isAgain, standing] at falls
      cases falls
    · rw [if_pos (mem_expired.mpr ⟨record, found, Bool.eq_false_iff.mpr standing⟩),
        Option.filter_some_neg (Bool.eq_false_iff.mpr standing)]

/-! ### Taking records -/

theorem lookup_insertIfNewer (place : NodeId) :
    (m.insertIfNewer suite record).1.directory.lookup place =
      if record.nodeId = place then LatestWins.later Record.seq (m.directory.lookup place) record
      else m.directory.lookup place := by
  have inserted : (m.insertRecord suite record).directory.lookup place =
      if record.nodeId = place then some record else m.directory.lookup place := by
    split
    · rename_i here
      rw [← here]
      exact AList.lookup_insert _
    · rename_i elsewhere
      exact AList.lookup_insert_ne (Ne.symm elsewhere)
  unfold insertIfNewer
  split
  · rename_i existing found
    split
    · rename_i behind
      split
      · rename_i here
        rw [← here, found]
        exact (LatestWins.later_of_le behind).symm
      · rfl
    · rename_i ahead
      rw [inserted]
      split
      · rename_i here
        rw [← here, found]
        exact (if_neg ahead).symm
      · rfl
  · rename_i unknown
    rw [inserted]
    split
    · rename_i here
      rw [← here, unknown]
      rfl
    · rfl

@[simp]
theorem ingestRecord_settings : (m.ingestRecord suite skew record now).1.settings = m.settings := by
  unfold ingestRecord
  dsimp only
  split
  · exact insertIfNewer_settings.trans sweepExpired_settings
  · exact sweepExpired_settings

theorem lookup_ingestRecord (verified : m.verifyRecord suite skew record now) :
    (m.ingestRecord suite skew record now).1.directory.lookup =
      LatestWins.ingest Record.nodeId Record.seq (m.stands suite skew now) m.directory.lookup
        record := by
  have stillVerified : (m.sweepExpired suite skew now).1.verifyRecord suite skew record now := by
    rw [verifyRecord_congr sweepExpired_settings]
    exact verified
  funext place
  unfold ingestRecord
  dsimp only
  rw [if_pos stillVerified]
  have swept (place : NodeId) : (m.sweepExpired suite skew now).1.directory.lookup place =
      LatestWins.sweep (m.stands suite skew now) m.directory.lookup place :=
    congrFun lookup_sweepExpired place
  rw [lookup_insertIfNewer, swept]
  rfl

theorem lookup_ingestRecord_of_unverified
    (unverified : m.verifyRecord suite skew record now = false) :
    (m.ingestRecord suite skew record now).1.directory.lookup =
      LatestWins.sweep (m.stands suite skew now) m.directory.lookup := by
  have stillUnverified :
      (m.sweepExpired suite skew now).1.verifyRecord suite skew record now = false := by
    rw [verifyRecord_congr sweepExpired_settings]
    exact unverified
  unfold ingestRecord
  dsimp only
  rw [if_neg (by rw [stillUnverified]; exact Bool.false_ne_true)]
  exact lookup_sweepExpired

theorem ingestAll_cons (rest : List Record) :
    m.ingestAll suite skew (record :: rest) now =
      (m.ingestRecord suite skew record now).1.ingestAll suite skew rest now := rfl

@[simp]
theorem ingestAll_settings (records : List Record) :
    (m.ingestAll suite skew records now).settings = m.settings := by
  induction records generalizing m with
  | nil => rfl
  | cons record rest ih =>
    rw [ingestAll_cons, ih, ingestRecord_settings]

end Membership

/-! ### An executable member -/

namespace Transparent

theorem length_twice (key : Bytes 32) : (key.toList ++ key.toList).length = 64 := by simp

theorem length_end (length : Nat) (input : List Byte) :
    ((List.replicate length 0 ++ input).drop input.length).length = length := by simp

def suite : Suite where
  ed :=
    { isKey := fun _ => true
      verifyStrict := fun key _ signature => signature.toList = key.toList ++ key.toList }
  sign := fun priv _ => ⟨priv.toList ++ priv.toList, length_twice priv⟩
  blake2s := fun length input =>
    ⟨(List.replicate length 0 ++ input).drop input.length, length_end length input⟩

def all (length value : Nat) : Bytes length := List.Vector.replicate length (Byte.ofNat value)

def addr (port : Nat) : SocketAddr := ⟨.v4 (all 4 10), ⟨port % 65536, Nat.mod_lt _ (by decide)⟩⟩

def cert (member signer notAfter : Nat) : Cert :=
  ⟨1, all 32 member, all 32 member, all 16 0, 1000, notAfter, [], all 64 signer⟩

def record (cert : Cert) (member seq port : Nat) : Record :=
  ⟨nodeId suite cert.memberPubkey, cert, [addr port], seq, all 64 member⟩

def member : Membership :=
  (Membership.new suite [all 32 9] (all 16 0) (cert 1 9 2000) (all 32 1)
    ⟨[(all 32 8, addr 53)], 1, all 64 9⟩ []).get (by decide +kernel)

theorem new_member :
    Membership.new suite [all 32 9] (all 16 0) (cert 1 9 2000) (all 32 1)
      ⟨[(all 32 8, addr 53)], 1, all 64 9⟩ [] = some member :=
  (Option.some_get _).symm

end Transparent

end Yip.Members
