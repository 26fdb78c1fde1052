/-
This file is an executable instance of the primitives, so that runs of the model can be
evaluated.
-/

import Yip.DataPlane

namespace Yip.Transparent

open Crypto Transport Wire

def tag (key : Key) (counter : Nat) : List Byte :=
  (key ++ List.replicate 8 0).take 8 ++ toBeBytes 8 counter

theorem length_tag (key : Key) (counter : Nat) : (tag key counter).length = 16 := by
  simp [tag]

def aead : Aead where
  sealBytes := fun key counter plaintext => plaintext ++ tag key counter
  openBytes := fun key counter ciphertext =>
    if ciphertext.length < 16 then none
    else if ciphertext.drop (ciphertext.length - 16) = tag key counter then
      some (ciphertext.take (ciphertext.length - 16))
    else none

theorem aead_lawful : aead.Lawful where
  open_seal := by
    intro key counter plaintext
    have length : (plaintext ++ tag key counter).length = plaintext.length + 16 := by
      rw [List.length_append, length_tag]
    simp only [aead, length, Nat.add_sub_cancel, List.drop_left, List.take_left, if_true]
    rw [if_neg (by omega)]
  length_seal := by
    intro key counter plaintext
    simp only [aead, List.length_append, length_tag]

def sip : Sip := fun key _ => BitVec.ofNat 64 (ofBeBytes ((key ++ List.replicate 8 0).take 8))

def heuristics (flow : FlowClass) : Heuristics where
  Classifier := Unit
  newClassifier := ()
  classify := fun _ _ _ _ => ((), flow)
  observeIngress := fun _ _ _ _ => ()
  Controller := Unit
  newFor := fun _ => ()
  repairCount := fun _ _ => 0
  observeLoss := fun _ _ _ => ()
  setRatio := fun _ _ => ()

def split (initiator : Bool) (ephemeral responderSeed : List Byte) : SplitKeys :=
  let binding := ephemeral.drop 29 ++ responderSeed.drop 4
  let own := fun first => Byte.ofNat (if first then 1 else 2) :: binding
  ⟨own initiator, own !initiator, binding⟩

def noise : Noise where
  HandshakeState := List Byte
  writeInit := fun localPriv _ payload seed =>
    some (toBeBytes 32 seed, toBeBytes 32 seed ++ localPriv.take 1 ++ payload)
  readInit := fun _ message payload seed =>
    if message.length < 33 then none
    else
      some (split false (message.take 32) (toBeBytes 8 seed), toBeBytes 8 seed ++ payload,
        (message.drop 32).take 1, message.drop 33)
  readResp := fun ephemeral message =>
    if message.length < 8 then none
    else some (split true ephemeral (message.take 8), message.drop 8)
  deriveWireKeys := fun binding => (Byte.ofNat 3 :: binding, Byte.ofNat 4 :: binding)

def mesh : Mesh where
  Membership := Nat
  Cert := Nat
  decodeCert := fun bytes => if bytes.length = 8 then some (ofBeBytes bytes) else none
  notAfter := id
  ownCertBytes := toBeBytes 8
  verifyCert := fun _ cert _ nowSecs => nowSecs ≤ cert
  roots := fun _ => []
  resolve := fun _ _ => none
  memberCertValid := fun _ _ _ => false
  memberOrAdmittedCertValid := fun _ _ admitted nowSecs => admitted.any (nowSecs ≤ ·)
  Record := Empty
  recordNode := Empty.elim
  recordEndpoints := Empty.elim
  verifyRecord := fun _ record => record.elim
  GossipMsg := Empty
  decodeGossip := fun _ => none
  encodeGossip := Empty.elim
  onGossip := fun _ message => message.elim
  tickDigest := fun membership _ _ => (membership, [])

def rendezvous : Rendezvous mesh.Record where
  Client := SocketAddr
  serverAddr := id
  lookup := fun server node => ⟨0, server, toBeBytes 8 node⟩
  relay := fun server src _ payload => ⟨0, server, toBeBytes 8 src ++ payload⟩
  parse := fun _ datagram => .relayed (ofBeBytes (datagram.take 8)) (datagram.drop 8)

def number (key : Key) : Nat := ofBeBytes (Byte.ofNat 1 :: key)

def primitives (flow : FlowClass) : Primitives where
  aead := aead
  sip := sip
  heuristics := heuristics flow
  noise := noise
  mesh := mesh
  rendezvous := rendezvous
  nodeAddr := number
  nodeId := number

def established (flow : FlowClass) (initiator : Bool) (round : Nat) : Established :=
  HandshakeState.establish (primitives flow)
    (split initiator (toBeBytes 32 round) (toBeBytes 8 round))

def dataPlane (flow : FlowClass) (initiator : Bool) (round symbolSize : Nat) :
    DataPlane (primitives flow) :=
  let established := established flow initiator round
  DataPlane.new (primitives flow) established
    (connTagFromKeys established.authKey established.hpKey) false ⟨1, 1⟩ false symbolSize

end Yip.Transparent
