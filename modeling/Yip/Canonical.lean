/-
This file puts the codecs of the mesh together: certificates, root sets, records and gossip, and
the body the threshold authority signs.
-/

import Yip.Ca.Serve
import Yip.Members.Gossip

namespace Yip.Members

inductive StdSocketAddr where
  | v4 (octets : Bytes 4) (port : Fin 65536)
  | v6 (octets : Bytes 16) (port : Fin 65536) (flowinfo scopeId : Nat)

namespace StdSocketAddr

def wire : StdSocketAddr → SocketAddr
  | v4 octets port => ⟨.v4 octets, port⟩
  | v6 octets port _ _ => ⟨.v6 octets, port⟩

def new : SocketAddr → StdSocketAddr
  | ⟨.v4 octets, port⟩ => v4 octets port
  | ⟨.v6 octets, port⟩ => v6 octets port 0 0

def Plain : StdSocketAddr → Prop
  | v4 _ _ => True
  | v6 _ _ flowinfo scopeId => flowinfo = 0 ∧ scopeId = 0

theorem wire_new (addr : SocketAddr) : (new addr).wire = addr := by
  obtain ⟨ip, port⟩ := addr
  cases ip <;> rfl

theorem new_wire_iff (addr : StdSocketAddr) : new addr.wire = addr ↔ addr.Plain := by
  cases addr with
  | v4 octets port => exact iff_of_true rfl trivial
  | v6 octets port flowinfo scopeId =>
    simp only [wire, new, v6.injEq, true_and, Plain, eq_comm]

end StdSocketAddr

/-! ### Values with their addresses -/

@[ext]
structure Held {Value : Type} (addresses : Value → List SocketAddr) where
  value : Value
  addrs : List StdSocketAddr
  same : addrs.map StdSocketAddr.wire = addresses value

namespace Held

variable {Value : Type} {addresses : Value → List SocketAddr}

def new (value : Value) : Held addresses where
  value := value
  addrs := (addresses value).map StdSocketAddr.new
  same := by
    rw [List.map_map]
    exact List.map_id'' StdSocketAddr.wire_new _

theorem new_eq_iff (held : Held addresses) :
    new held.value = held ↔ ∀ addr ∈ held.addrs, addr.Plain := by
  have undone : held.addrs.map (StdSocketAddr.new ∘ StdSocketAddr.wire) = held.addrs.map id ↔ _ :=
    List.map_inj_left
  rw [List.map_id] at undone
  rw [Held.ext_iff]
  refine (and_iff_right rfl).trans ?_
  show (addresses held.value).map StdSocketAddr.new = held.addrs ↔ _
  rw [← held.same, List.map_map, undone]
  exact forall₂_congr fun addr _ => addr.new_wire_iff

end Held

def Canonical {Value : Type} (addresses : Value → List SocketAddr) (sized : Value → Prop)
    (encode : Value → Option (List Byte)) (decode : List Byte → Option Value) : Prop :=
  (∀ (held : Held addresses) (buf : List Byte), sized held.value → encode held.value = some buf →
      ((decode buf).map Held.new = some held ↔ ∀ addr ∈ held.addrs, addr.Plain)) ∧
    ∀ (buf : List Byte) (held : Held addresses), (decode buf).map Held.new = some held →
      encode held.value = some buf

theorem canonical_of_iff {Value : Type} (addresses : Value → List SocketAddr)
    {sized : Value → Prop} {encode : Value → Option (List Byte)}
    {decode : List Byte → Option Value}
    (inverse : ∀ buf value, decode buf = some value ↔ sized value ∧ encode value = some buf) :
    Canonical addresses sized encode decode := by
  refine ⟨fun held buf isSized encoded => ?_, fun buf held decoded => ?_⟩
  · rw [(inverse buf held.value).mpr ⟨isSized, encoded⟩, Option.map_some, Option.some.injEq,
      Held.new_eq_iff]
  · obtain ⟨value, read, rfl⟩ := Option.map_eq_some_iff.mp decoded
    exact ((inverse buf value).mp read).2

def RootSet.addresses (set : RootSet) : List SocketAddr := set.roots.map Prod.snd

def GossipMsg.addresses : GossipMsg → List SocketAddr
  | .records list => list.flatMap Record.endpoints
  | .digest _ | .pullRequest _ => []

theorem canonicalBytes_of_finished {frost : Ca.Frost} {ca : Ca.Authority frost}
    {payload : Ca.SubmitEnrollmentPayload} {sessionId : Nat} {cert : Cert}
    (issued : ca.finished payload sessionId = some cert) :
    payload.csrTbs.toCanonicalBytes = certSigningBody cert := by
  obtain ⟨session, -, finished⟩ := Option.bind_eq_some_iff.mp issued
  split at finished
  · split at finished
    · cases finished
      rfl
    · cases finished
  · cases finished

/-- The codecs, for values whose numbers are 64-bit words; and the bytes that a signer signs at a
request of the authority are the body of the certificate that is issued for the submission. -/
theorem membership_codecs_canonical :
    Canonical (fun _ => []) (fun cert => cert.notBefore < 256 ^ 8 ∧ cert.notAfter < 256 ^ 8)
        Cert.encode Cert.decode ∧
      Canonical RootSet.addresses (fun set => set.version < 256 ^ 8) RootSet.encode
        RootSet.decode ∧
      Canonical Record.endpoints Record.Sized Record.encode Record.decode ∧
      Canonical GossipMsg.addresses GossipMsg.Sized GossipMsg.encode GossipMsg.decode ∧
      ∀ (frost : Ca.Frost) (ca later : Ca.Authority frost) payload sessionId package slotMap,
        ∀ asked ∈ ca.requests payload sessionId package slotMap,
          ∀ (signer after : Ca.SignerState frost) seed share,
            signer.handleSignRequest asked.2 seed = some (after, .signCertResponse share) →
              ∀ cert, later.finished payload sessionId = some cert →
                certSigningBody cert = some package.message := by
  refine ⟨canonical_of_iff _ fun _ _ => Cert.decode_eq_some_iff,
    canonical_of_iff _ fun _ _ => RootSet.decode_eq_some_iff,
    canonical_of_iff _ fun _ _ => Record.decode_eq_some_iff,
    canonical_of_iff _ fun _ _ => GossipMsg.decode_eq_some_iff, ?_⟩
  intro frost ca later payload sessionId package slotMap asked member signer after seed share
    signed cert issued
  rw [← canonicalBytes_of_finished issued]
  obtain ⟨entry, -, named⟩ := List.mem_filterMap.mp member
  obtain ⟨target, -, rfl⟩ := Option.map_eq_some_iff.mp named
  exact Ca.SignerState.handleSignRequest_share signed

def scopedRoots : Held RootSet.addresses where
  value := ⟨[(List.Vector.replicate 32 (Byte.ofNat 0),
    ⟨.v6 (List.Vector.replicate 16 (Byte.ofNat 0)), ⟨51820, by decide⟩⟩)], 1,
    List.Vector.replicate 64 (Byte.ofNat 0)⟩
  addrs := [.v6 (List.Vector.replicate 16 (Byte.ofNat 0)) ⟨51820, by decide⟩ 0 2]
  same := rfl

theorem scope_lost : ∃ buf, scopedRoots.value.encode = some buf ∧
    (RootSet.decode buf).map Held.new ≠ some scopedRoots := by
  refine ⟨_, rfl, fun undone => ?_⟩
  have plain := ((canonical_of_iff RootSet.addresses fun _ _ =>
    RootSet.decode_eq_some_iff).1 scopedRoots _ (by decide) rfl).mp undone
  exact absurd (plain _ List.mem_cons_self).2 (by decide)

end Yip.Members
