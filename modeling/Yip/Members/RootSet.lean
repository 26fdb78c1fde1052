/-
This file models the signed root set (`cert.rs`): the bootstrap nodes with their addresses, the
bytes the authority signs for them, the encoding and the strict decoder.
-/

import Yip.Members.Cert

namespace Yip.Members

open List Option

inductive IpAddr where
  | v4 (octets : Bytes 4)
  | v6 (octets : Bytes 16)
  deriving DecidableEq

structure SocketAddr where
  ip : IpAddr
  port : Fin 65536
  deriving DecidableEq

structure RootSet where
  roots : List (Bytes 32 × SocketAddr)
  version : Nat
  caSig : Bytes 64
  deriving DecidableEq

/-! ### Encoding -/

def IpAddr.bytes : IpAddr → List Byte
  | v4 octets => Byte.ofNat 4 :: octets.toList
  | v6 octets => Byte.ofNat 6 :: octets.toList

def putAddr (addr : SocketAddr) : List Byte := addr.ip.bytes ++ toBeBytes 2 addr.port

def rootBytes : List (Bytes 32 × SocketAddr) → List Byte
  | [] => []
  | (pubkey, addr) :: rest => pubkey.toList ++ putAddr addr ++ rootBytes rest

def rootsetSigningBody (set : RootSet) : Option (List Byte) := do
  let count ← lengthField set.roots.length
  return toBeBytes 8 set.version ++ count ++ rootBytes set.roots

def RootSet.encode (set : RootSet) : Option (List Byte) :=
  (rootsetSigningBody set).map (· ++ set.caSig.toList)

/-! ### Decoding -/

def takeIp (buf : List Byte) : Option (IpAddr × List Byte) := do
  let (family, buf) ← takeByte buf
  if family = Byte.ofNat 4 then
    let (octets, buf) ← takeBytes 4 buf
    return (.v4 octets, buf)
  else if family = Byte.ofNat 6 then
    let (octets, buf) ← takeBytes 16 buf
    return (.v6 octets, buf)
  else none

def takeAddr (buf : List Byte) : Option (SocketAddr × List Byte) := do
  let (ip, buf) ← takeIp buf
  let (port, buf) ← takeUint 2 buf
  return (⟨ip, Fin.ofNat 65536 port⟩, buf)

def takeRoots : Nat → List Byte → Option (List (Bytes 32 × SocketAddr) × List Byte)
  | 0, buf => some ([], buf)
  | count + 1, buf => do
    let (pubkey, buf) ← takeBytes 32 buf
    let (addr, buf) ← takeAddr buf
    let (roots, buf) ← takeRoots count buf
    return ((pubkey, addr) :: roots, buf)

def RootSet.decode (buf : List Byte) : Option RootSet := do
  let (version, buf) ← takeUint 8 buf
  let (count, buf) ← takeUint 2 buf
  let (roots, buf) ← takeRoots count buf
  let (caSig, buf) ← takeBytes 64 buf
  if buf = [] then return ⟨roots, version, caSig⟩ else none

def RootSet.verifyRootset (ed : Ed25519) (set : RootSet) (caPubkeys : List (Bytes 32)) :
    Option Bool :=
  (rootsetSigningBody set).map fun body => verifyAny ed body set.caSig caPubkeys

/-! ### Reading undoes writing -/

variable {buf rest : List Byte} {set : RootSet} {cert : Cert}

theorem takeIp_eq_some_iff {ip : IpAddr} :
    takeIp buf = some (ip, rest) ↔ buf = ip.bytes ++ rest := by
  have families : Byte.ofNat 6 ≠ Byte.ofNat 4 := by decide
  simp only [takeIp, bind_eq_bind, bind_eq_some_iff, Prod.exists, takeByte_eq_some_iff]
  constructor
  · rintro ⟨family, after, rfl, taken⟩
    split at taken
    · rename_i isV4
      obtain ⟨octets, rfl, rfl⟩ := by simpa [bind_eq_some_iff, takeBytes_eq_some_iff] using taken
      rw [isV4]
      rfl
    · split at taken
      · rename_i isV6
        obtain ⟨octets, rfl, rfl⟩ := by simpa [bind_eq_some_iff, takeBytes_eq_some_iff] using taken
        rw [isV6]
        rfl
      · cases taken
  · rintro rfl
    cases ip with
    | v4 octets => exact ⟨_, _, rfl, by simp [takeBytes_append octets]⟩
    | v6 octets => exact ⟨_, _, rfl, by simp [takeBytes_append octets, families]⟩

theorem takeAddr_eq_some_iff {addr : SocketAddr} :
    takeAddr buf = some (addr, rest) ↔ buf = putAddr addr ++ rest := by
  simp only [takeAddr, bind_eq_bind, bind_eq_some_iff, Prod.exists, takeIp_eq_some_iff,
    takeUint_eq_some_iff, Option.pure_def, some.injEq, Prod.mk.injEq]
  constructor
  · rintro ⟨ip, _, rfl, port, _, ⟨below, rfl⟩, rfl, rfl⟩
    have whole : (Fin.ofNat 65536 port).val = port := Nat.mod_eq_of_lt below
    rw [putAddr, whole, append_assoc]
  · rintro rfl
    rw [putAddr, append_assoc]
    exact ⟨_, _, rfl, _, _, ⟨addr.port.isLt, rfl⟩, by simp, rfl⟩

theorem takeRoots_eq_some_iff {count : Nat} {roots : List (Bytes 32 × SocketAddr)} :
    takeRoots count buf = some (roots, rest) ↔
      roots.length = count ∧ buf = rootBytes roots ++ rest := by
  induction count generalizing buf rest roots with
  | zero =>
    constructor
    · intro taken
      obtain ⟨rfl, rfl⟩ := Prod.mk.inj (some.inj taken)
      exact ⟨rfl, rfl⟩
    · rintro ⟨empty, rfl⟩
      rw [length_eq_zero_iff.mp empty]
      rfl
  | succ count ih =>
    simp only [takeRoots, bind_eq_bind, bind_eq_some_iff, Prod.exists, takeBytes_eq_some_iff,
      takeAddr_eq_some_iff, ih, Option.pure_def, some.injEq, Prod.mk.injEq]
    constructor
    · rintro ⟨pubkey, _, rfl, addr, _, rfl, others, _, ⟨rfl, rfl⟩, rfl, rfl⟩
      exact ⟨rfl, by simp only [rootBytes, append_assoc]⟩
    · rintro ⟨length, rfl⟩
      cases roots with
      | nil => cases length
      | cons root others =>
        simp only [rootBytes, append_assoc]
        exact ⟨_, _, rfl, _, _, rfl, _, _, ⟨Nat.succ.inj length, rfl⟩, rfl, rfl⟩

variable {body : List Byte}

theorem rootsetSigningBody_eq_some_iff :
    rootsetSigningBody set = some body ↔ set.roots.length < 65536 ∧
      toBeBytes 8 set.version ++ toBeBytes 2 set.roots.length ++ rootBytes set.roots = body := by
  simp [rootsetSigningBody, bind_eq_some_iff, lengthField_eq_some_iff, and_assoc]

theorem RootSet.decode_eq_some_iff :
    RootSet.decode buf = some set ↔ set.version < 256 ^ 8 ∧ set.encode = some buf := by
  simp only [RootSet.decode, bind_eq_bind, bind_eq_some_iff, Prod.exists, takeUint_eq_some_iff,
    takeRoots_eq_some_iff, takeBytes_eq_some_iff, ite_none_right_eq_some, Option.pure_def,
    some.injEq]
  constructor
  · rintro ⟨version, _, ⟨low, rfl⟩, _, _, ⟨fits, rfl⟩, roots, _, ⟨rfl, rfl⟩, caSig, _, rfl,
      rfl, rfl⟩
    refine ⟨low, ?_⟩
    simp [RootSet.encode, rootsetSigningBody, lengthField_of_lt fits]
  · rintro ⟨low, encoded⟩
    obtain ⟨body, signed, rfl⟩ := map_eq_some_iff.mp encoded
    obtain ⟨fits, rfl⟩ := rootsetSigningBody_eq_some_iff.mp signed
    exact ⟨_, _, ⟨low, rfl⟩, _, _, ⟨fits, rfl⟩, _, _, ⟨rfl, rfl⟩, _, _, (append_nil _).symm, rfl,
      rfl⟩

/-! ### Certificates and root sets -/

theorem rootsetSigningBody_congr (set : RootSet) (version : Nat) (caSig : Bytes 64)
    (same : version % 256 ^ 8 = set.version % 256 ^ 8) :
    rootsetSigningBody { set with version := version, caSig := caSig } =
      rootsetSigningBody set := by
  have low (value : Nat) : toBeBytes 8 value = toBeBytes 8 (value % 256 ^ 8) := by
    have split := Nat.div_add_mod' value (256 ^ 8)
    rw [← toBeBytes_mul_add 8 (value / 256 ^ 8) (value % 256 ^ 8), split]
  simp only [rootsetSigningBody]
  rw [low version, same, ← low]

theorem decode_encode_eq_some_iff :
    cert.encode.bind RootSet.decode = some set ↔ set.version < 256 ^ 8 ∧ set.caSig = cert.caSig ∧
      ∃ body, certSigningBody cert = some body ∧ rootsetSigningBody set = some body := by
  constructor
  · intro decoded
    obtain ⟨buf, encoded, decoded⟩ := bind_eq_some_iff.mp decoded
    obtain ⟨body, signed, rfl⟩ := map_eq_some_iff.mp encoded
    obtain ⟨low, again⟩ := RootSet.decode_eq_some_iff.mp decoded
    obtain ⟨rootBody, rootSigned, same⟩ := map_eq_some_iff.mp again
    have width : set.caSig.toList.length = cert.caSig.toList.length := by
      rw [set.caSig.toList_length, cert.caSig.toList_length]
    obtain ⟨rfl, sigs⟩ := append_inj' same width
    exact ⟨low, Subtype.ext sigs, rootBody, signed, rootSigned⟩
  · rintro ⟨low, sigs, body, signed, rootSigned⟩
    refine bind_eq_some_iff.mpr ⟨body ++ cert.caSig.toList, ?_, ?_⟩
    · rw [Cert.encode, signed, map_some]
    · refine RootSet.decode_eq_some_iff.mpr ⟨low, ?_⟩
      rw [RootSet.encode, rootSigned, map_some, sigs]

def IsFamily (byte : Nat) : Prop := byte = 4 ∨ byte = 6

theorem IpAddr.isFamily_of_bytes {ip : IpAddr} {value : Nat} {after : List Byte}
    (same : Byte.ofNat value :: rest = ip.bytes ++ after) : IsFamily (value % 256) := by
  cases ip with
  | v4 octets =>
    have head := congrArg Byte.toNat (cons.inj same).1
    rw [Byte.toNat_ofNat, Byte.toNat_ofNat] at head
    exact Or.inl head
  | v6 octets =>
    have head := congrArg Byte.toNat (cons.inj same).1
    rw [Byte.toNat_ofNat, Byte.toNat_ofNat] at head
    exact Or.inr head

theorem length_ip_bytes_le (ip : IpAddr) : ip.bytes.length ≤ 17 := by
  cases ip <;> simp [IpAddr.bytes]

theorem certSigningBody_eq (signed : certSigningBody cert = some body) :
    ∃ front after, front.length = 81 ∧
      body = front ++ (toBeBytes 8 cert.notBefore ++ (toBeBytes 8 cert.notAfter ++ after)) ∧
      2 ≤ after.length := by
  obtain ⟨_, tags, _, rfl⟩ := certSigningBody_eq_some_iff.mp signed
  refine ⟨cert.version :: (cert.memberPubkey.toList ++ cert.memberSignPubkey.toList ++
    cert.networkId.toList), toBeBytes 2 cert.tags.length ++ tags, ?_, ?_, ?_⟩
  · simp
  · simp
  · rw [length_append, length_toBeBytes]
    omega

theorem isFamily_of_rootset (signed : certSigningBody cert = some body)
    (rootSigned : rootsetSigningBody set = some body) :
    IsFamily (cert.notBefore / 256 ^ 7 % 256) ∨ IsFamily (cert.notAfter / 256 ^ 3 % 256) := by
  obtain ⟨front, after, width, layout, room⟩ := certSigningBody_eq signed
  obtain ⟨_, same⟩ := rootsetSigningBody_eq_some_iff.mp rootSigned
  have both := same.trans layout
  have length := congrArg length both
  simp only [length_append, length_toBeBytes, width] at length
  -- the two shortest root sets are shorter than any certificate
  match shape : set.roots with
  | [] =>
    rw [shape] at length
    simp only [rootBytes, length_nil] at length
    omega
  | [(pubkey, addr)] =>
    have short := length_ip_bytes_le addr.ip
    rw [shape] at length
    simp only [rootBytes, putAddr, length_append, length_nil, length_toBeBytes,
      List.Vector.toList_length] at length
    omega
  | (pubkey, addr) :: (second, next) :: others =>
    rw [shape] at both
    have regrouped : (toBeBytes 8 set.version ++ toBeBytes 2 (others.length + 2) ++ pubkey.toList ++
        putAddr addr ++ second.toList) ++ (next.ip.bytes ++ (toBeBytes 2 next.port ++
          rootBytes others)) =
        front ++ (toBeBytes 8 cert.notBefore ++ (toBeBytes 8 cert.notAfter ++ after)) := by
      rw [← both]
      simp only [rootBytes, putAddr, append_assoc, length_cons]
    -- the family of the second address is at byte 81 or 93, after one of either kind
    cases family : addr.ip with
    | v4 octets =>
      have tail := append_inj_right regrouped (by
        simp [putAddr, IpAddr.bytes, family, width])
      exact Or.inl (next.ip.isFamily_of_bytes tail.symm)
    | v6 octets =>
      have halves : toBeBytes 8 cert.notAfter =
          (toBeBytes 8 cert.notAfter).take 4 ++ toBeBytes 4 cert.notAfter := rfl
      have later : front ++ (toBeBytes 8 cert.notBefore ++ (toBeBytes 8 cert.notAfter ++ after)) =
          (front ++ toBeBytes 8 cert.notBefore ++ (toBeBytes 8 cert.notAfter).take 4) ++
            (toBeBytes 4 cert.notAfter ++ after) := by
        conv_lhs => rw [halves]
        simp only [append_assoc]
      have tail := append_inj_right (regrouped.trans later) (by
        simp [putAddr, IpAddr.bytes, family, width])
      exact Or.inr (next.ip.isFamily_of_bytes tail.symm)

/-- No root set has the body of a certificate exactly if the encoded certificate does not decode as
a root set; if it does, the certificate's signature is good for that root set under every key under
which it is good for the certificate. It does not decode unless one of its times has the family of
an address in a certain byte. -/
theorem cert_apart_from_rootsets_iff (cert : Cert) :
    ((∀ set body, certSigningBody cert = some body → rootsetSigningBody set ≠ some body) ↔
      cert.encode.bind RootSet.decode = none) ∧
    (∀ set, cert.encode.bind RootSet.decode = some set → ∀ ed caPubkeys,
      set.verifyRootset ed caPubkeys =
        (certSigningBody cert).map fun body => verifyAny ed body cert.caSig caPubkeys) ∧
    (¬IsFamily (cert.notBefore / 256 ^ 7 % 256) → ¬IsFamily (cert.notAfter / 256 ^ 3 % 256) →
      cert.encode.bind RootSet.decode = none) := by
  refine ⟨⟨fun apart => ?_, fun undecodable set body signed rootSigned => ?_⟩, ?_, ?_⟩
  · rw [eq_none_iff_forall_ne_some]
    intro set decoded
    obtain ⟨_, _, body, signed, rootSigned⟩ := decode_encode_eq_some_iff.mp decoded
    exact apart set body signed rootSigned
  · let presented : RootSet :=
      { set with version := set.version % 256 ^ 8, caSig := cert.caSig }
    have decoded : cert.encode.bind RootSet.decode = some presented := by
      refine decode_encode_eq_some_iff.mpr ⟨Nat.mod_lt _ (by decide), rfl, body, signed, ?_⟩
      exact (rootsetSigningBody_congr set _ _ (Nat.mod_mod _ _)).trans rootSigned
    rw [undecodable] at decoded
    cases decoded
  · intro set decoded ed caPubkeys
    obtain ⟨_, sigs, body, signed, rootSigned⟩ := decode_encode_eq_some_iff.mp decoded
    rw [RootSet.verifyRootset, rootSigned, signed, sigs]
  · intro start ends
    rw [eq_none_iff_forall_ne_some]
    intro set decoded
    obtain ⟨_, _, body, signed, rootSigned⟩ := decode_encode_eq_some_iff.mp decoded
    exact (isFamily_of_rootset signed rootSigned).elim start ends

def ambiguous : Cert where
  version := 1
  memberPubkey := ⟨(List.replicate 7 0 ++ [0, 2] ++ List.replicate 23 5).map Byte.ofNat, rfl⟩
  memberSignPubkey := ⟨(List.replicate 9 5 ++ [6] ++ List.replicate 22 7).map Byte.ofNat, rfl⟩
  networkId := List.Vector.replicate 16 0
  notBefore := 2 ^ 32 + 6 * 2 ^ 24 - 3600
  notAfter := 2 ^ 32 + 6 * 2 ^ 24
  tags := [(0, List.replicate 10 0)]
  caSig := List.Vector.replicate 64 0

/-- What the authority signed for the member is also its signature for two bootstrap nodes. -/
theorem ambiguous_body_is_rootset_body :
    ∃ set body, set.roots.length = 2 ∧ certSigningBody ambiguous = some body ∧
      rootsetSigningBody set = some body := by
  have decodes : ((ambiguous.encode.bind RootSet.decode).map (·.roots.length)) = some 2 := by
    decide +kernel
  obtain ⟨set, decoded, two⟩ := map_eq_some_iff.mp decodes
  obtain ⟨_, _, body, signed, rootSigned⟩ := decode_encode_eq_some_iff.mp decoded
  exact ⟨set, body, two, signed, rootSigned⟩

end Yip.Members
