/-
This file is about the sweep that ends the sessions of members whose certificates have run out.
-/

import Yip.Networked
import Yip.PeerManager.Admission

namespace Yip

open Crypto Members Option

namespace Members.Membership

variable {suite : Suite} {skew : Nat} {m : Membership} {nowMs now : Nat} {obfOn : Bool}
  {jittered : Nat} {key : Bytes 32}

theorem tickDigest_memberOrAdmittedCertValid {admitted : Option Nat} :
    (m.tickDigest nowMs obfOn jittered).1.memberOrAdmittedCertValid suite skew key admitted now =
      m.memberOrAdmittedCertValid suite skew key admitted now := by
  unfold tickDigest
  split <;> rfl

theorem memberOrAdmittedCertValid_iff {last : Cert} {admitted : Option Nat}
    (valid : m.verifyCert suite skew last key now)
    (backed : ∃ limit ∈ admitted, last.notAfter ≤ limit) :
    m.memberOrAdmittedCertValid suite skew key admitted now ↔
      (m.roots.roots.any fun root => root.1 = key) ∨
      ∀ record ∈ m.directory.lookup (nodeId suite key),
        m.verifyCert suite skew record.cert key now := by
  obtain ⟨limit, rfl, later⟩ := backed
  have lasts : now ≤ saturatingAdd limit skew := by
    have covered := (verifyCert_eq_ok_iff.mp (of_decide_eq_true valid)).2.lasts
    unfold saturatingAdd at covered ⊢
    omega
  unfold memberOrAdmittedCertValid
  split
  · rename_i isRoot
    exact iff_of_true rfl (Or.inl isRoot)
  · rename_i notRoot
    rw [or_iff_right notRoot]
    cases m.directory.lookup (nodeId suite key) with
    | none => exact iff_of_true (decide_eq_true lasts) nofun
    | some record => exact ⟨fun verifies found isFound => some.inj isFound ▸ verifies,
        fun verifies => verifies record rfl⟩

end Members.Membership

namespace PeerManager

section Spared

variable {suite : Suite} {skew : Nat} {jitter : Nat → Nat} {base : Primitives}

/-- A peer is watched from the start of the manager on, through events of every kind, as long as it
is not removed and Inits for its live session do no harm. If it has a session and the certificate of
the last handshake that was accepted from it is valid, the timer leaves the session alone exactly if
the sweep is not due, the peer is a root, or the directory has no record of it that does not
verify. -/
theorem sweep_spares_iff (config : Config (networked suite skew jitter base)) (idx : Nat)
    (events : List ShardEvent)
    (lasting : Machine.Admissible Bearer.step Bearer.Lasting (Bearer.start config idx) events)
    {bearer : Bearer (networked suite skew jitter base)}
    (reached : bearer = Machine.run Bearer.step (Bearer.start config idx) events)
    {membership : Membership} (joined : bearer.pm.membership = some membership)
    {peer : Peer (networked suite skew jitter base)} (holds : bearer.watched = some peer)
    (live : peer.state.isEstablished = true) {key : Bytes 32} (isKey : peer.pubkey = key.toList)
    {last : Cert} (accepted : bearer.cert = some last) (moment : Moment)
    (valid : membership.verifyCert suite skew last key moment.nowSecs) :
    (bearer.pm.tickDispatch moment).1.Live bearer.idx ↔
      moment.nowMs - bearer.pm.lastCertSweepMs < bearer.pm.rekeyIntervalMs ∨
      (membership.roots.roots.any fun root => root.1 = key) ∨
      ∀ record ∈ membership.directory.lookup (nodeId suite key),
        membership.verifyCert suite skew record.cert key moment.nowSecs := by
  have sound := Bearer.run_sound config idx events lasting
  rw [← reached] at sound
  have backed : ∃ limit ∈ peer.admittedCertNotAfter, last.notAfter ≤ limit := by
    refine sound peer.admittedCertNotAfter ?_ last accepted
    rw [holds, admissionOf, bind_some, if_pos live]
    rfl
  rw [tickDispatch_live_iff moment ⟨peer, holds, live⟩, sweeps_iff joined holds live, not_and_or,
    not_le, Bool.not_eq_false]
  refine or_congr_right ?_
  change (keyBytes peer.pubkey).any (fun key =>
    (membership.tickDigest moment.nowMs _ (jitter moment.nowMs)).1.memberOrAdmittedCertValid suite
      skew key peer.admittedCertNotAfter moment.nowSecs) = true ↔ _
  rw [isKey, keyBytes_toList, any_some, Membership.tickDigest_memberOrAdmittedCertValid]
  exact Membership.memberOrAdmittedCertValid_iff valid backed

end Spared

/-! ### A member that renews its certificate -/

section Renewal

open Members.Transparent

def longKeys : Noise where
  HandshakeState := List Byte
  writeInit := fun localPriv _ payload seed =>
    some (toBeBytes 32 seed, toBeBytes 32 seed ++ localPriv.take 32 ++ payload)
  readInit := fun _ message payload seed =>
    if message.length < 64 then none
    else
      some (Yip.Transparent.split false (message.take 32) (toBeBytes 8 seed),
        toBeBytes 8 seed ++ payload, (message.drop 32).take 32, message.drop 64)
  readResp := Yip.Transparent.noise.readResp
  deriveWireKeys := Yip.Transparent.noise.deriveWireKeys

def meshed : Primitives :=
  networked suite clockSkewSecs id { Yip.Transparent.primitives .bulk with noise := longKeys }

def joining : Config meshed where
  localPriv := (all 32 1).toList
  localPub := (all 32 1).toList
  peers := []
  l2 := true
  rendezvous := none
  membership := some member
  relayOnly := false
  obfOn := false
  dataSymbolSize := 1200
  rekeyIntervalMs := Yip.rekeyIntervalMs
  bootFloorTs := 0
  shardId := 0
  numShards := 1
  redundancyPct := 0

def presents (label notAfter nowSecs : Nat) : ShardEvent :=
  .own (.udp ⟨2, 2⟩
    (PacketType.handshakeInit.toByte :: (toBeBytes 32 label ++ (all 32 2).toList ++
      frameInitPayload label ((cert 2 9 notAfter).encode.getD [])))
    (Yip.Transparent.moment label nowSecs 0 label))

def tells (notAfter nowSecs : Nat) : ShardEvent :=
  .own (.udp ⟨2, 2⟩
    (PacketType.gossip.toByte ::
      (GossipMsg.records [record (cert 2 9 notAfter) 2 1 2]).encode.getD [])
    (Yip.Transparent.moment 15 nowSecs 0 0))

def watching (events : List ShardEvent) : Bearer meshed :=
  Machine.run Bearer.step (Bearer.start joining 1) events

def sweeping (nowSecs : Nat) : Moment := Yip.Transparent.moment 200000 nowSecs 0 9

def renewals : List ShardEvent := [presents 10 2000 1500, presents 20 9000 2100]

/-- Without a record of member 2 in the directory its session is spared. -/
theorem renewed_member_spared :
    (watching renewals).pm.Live 1 ∧
      ((watching renewals).pm.tickDispatch (sweeping 2400)).1.Live 1 := by
  have spared := sweep_spares_iff joining 1 renewals (by decide +kernel)
    (show watching renewals = _ from rfl) (some_get (by decide +kernel)).symm
    (some_get (by decide +kernel)).symm (by decide +kernel)
    (show _ = (all 32 2).toList by decide +kernel)
    (some_get (by decide +kernel)).symm (sweeping 2400) (by decide +kernel)
  exact ⟨by decide +kernel, spared.mpr (Or.inr (Or.inr (by decide +kernel)))⟩

def outdated : List ShardEvent :=
  [presents 10 2000 1500, tells 2000 1500, presents 20 9000 2100]

/-- The session ends when the certificate in the record has run out. -/
theorem stale_record_ends_session :
    (∃ membership ∈ (watching outdated).pm.membership, ∃ last ∈ (watching outdated).cert,
        Membership.verifyCert suite clockSkewSecs membership last (all 32 2) 2400) ∧
      (watching outdated).pm.Live 1 ∧
      ¬((watching outdated).pm.tickDispatch (sweeping 2400)).1.Live 1 := by
  decide +kernel

end Renewal

end PeerManager

end Yip
