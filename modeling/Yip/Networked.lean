/-
This file puts the directory of members and the client of a rendezvous server in the place of
the parameters the peer manager takes for them.
-/

import Yip.Members.Gossip
import Yip.Rdv.Client

namespace Yip

open Crypto

def keyBytes (key : Key) : Option (Members.Bytes 32) :=
  if length : key.length = 32 then some ⟨key, length⟩ else none

theorem keyBytes_toList (key : Members.Bytes 32) : keyBytes key.toList = some key := by
  unfold keyBytes
  rw [dif_pos key.toList_length]
  exact congrArg some (Subtype.ext rfl)

variable (suite : Members.Suite) (skew : Nat) (jitter : Nat → Nat)

/-- The membership of the peer manager, taken from the modelled directory. -/
def directory : Mesh where
  Membership := Members.Membership
  Cert := Members.Cert
  decodeCert := Members.Cert.decode
  notAfter := fun cert => cert.notAfter
  ownCertBytes := fun m => m.ownCert.encode.getD []
  verifyCert := fun m cert key nowSecs =>
    (keyBytes key).any fun key => m.verifyCert suite skew cert key nowSecs
  roots := fun m => m.roots.roots.map fun root => (root.1.toList, Rdv.endpoint root.2)
  resolve := fun m addr => (m.resolve (Rdv.nodeOfNumber addr)).map fun (key, endpoints) =>
    (key.toList, endpoints.map Rdv.endpoint)
  memberCertValid := fun m key nowSecs =>
    (keyBytes key).any fun key => m.memberCertValid suite skew key nowSecs
  memberOrAdmittedCertValid := fun m key admitted nowSecs =>
    (keyBytes key).any fun key => m.memberOrAdmittedCertValid suite skew key admitted nowSecs
  Record := Members.Record
  recordNode := fun record => Rdv.nodeNumber record.nodeId
  recordEndpoints := fun record => record.endpoints.map Rdv.endpoint
  verifyRecord := fun m record nowSecs => m.verifyRecord suite skew record nowSecs
  GossipMsg := Members.GossipMsg
  decodeGossip := Members.GossipMsg.decode
  encodeGossip := fun message => message.encode.getD []
  onGossip := fun m message nowSecs => m.onGossip suite skew message nowSecs
  tickDigest := fun m nowMs obfOn => m.tickDigest nowMs obfOn (jitter nowMs)

def networked (base : Primitives) : Primitives where
  aead := base.aead
  sip := base.sip
  heuristics := base.heuristics
  noise := base.noise
  mesh := directory suite skew jitter
  rendezvous := Rdv.configuredServer
  nodeAddr := fun key =>
    ofBeBytes (Byte.ofNat 0xfd ::
      (suite.blake2s 15 (Members.asciiBytes "yip-addr-v1" ++ key)).toList)
  nodeId := fun key => Rdv.nodeNumber (suite.blake2s 16 (Members.asciiBytes "yip-rdv-v1" ++ key))

variable {suite skew jitter}

end Yip
