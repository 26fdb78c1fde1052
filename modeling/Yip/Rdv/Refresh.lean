/-
This file is about keeping a registration alive: a node registers again and again, its datagrams
reach the server in the order sent, and the server decides on each by its tables, its roots and its
clock.
-/

import Yip.Rdv.AntiReplay
import Yip.Rdv.Client

namespace Yip.Rdv

open Crypto Members List

def regRefreshMs : Nat := 20000

/-- What a tick of the node reads and writes to register. -/
structure Registrar where
  localNodeId : NodeId
  membership : Option Membership
  registeredOnce : Bool
  lastRegisterMs : Nat
  refreshMs : Nat
  regSeq : Nat

namespace Registrar

section Tick

variable (suite : Suite)

def new (localNodeId : NodeId) (membership : Option Membership) (wallMs : Nat) : Registrar where
  localNodeId := localNodeId
  membership := membership
  registeredOnce := false
  lastRegisterMs := 0
  refreshMs := regRefreshMs
  regSeq := wallMs

/-- The registration the node makes: signed with a number if it is a member, else plain. -/
def message (registrar : Registrar) (regSeq : Nat) : Option Message :=
  match registrar.membership with
  | some m => (m.signRegistration suite regSeq).map fun record =>
    registration registrar.localNodeId (some record)
  | none => some (registration registrar.localNodeId none)

/-- The part of `tick_dispatch` that registers. -/
def tick (registrar : Registrar) (nowMs wallMs : Nat) (obfOn : Bool) (jittered : Nat) :
    Registrar × Option Message :=
  if !registrar.registeredOnce || decide (nowMs - registrar.lastRegisterMs ≥ registrar.refreshMs)
  then
    let regSeq := saturatingAdd (max registrar.regSeq wallMs) 1
    ({ registrar with
        regSeq := regSeq
        lastRegisterMs := nowMs
        refreshMs := if obfOn then jittered else regRefreshMs
        registeredOnce := true },
      (registrar.message suite regSeq).filter fun message => (encode message).isSome)
  else (registrar, none)

end Tick

end Registrar

/-! ### Arrival -/

namespace RendezvousServer

section Arrival

variable (suite : Suite) (deobfuscate : Bytes 16 → List Byte → Option (Byte × List Byte))
  (obfKey : Bytes 16)

end Arrival

variable {suite : Suite} {deobfuscate : Bytes 16 → List Byte → Option (Byte × List Byte)}
  {obfKey : Bytes 16} {server : RendezvousServer} {src : Members.SocketAddr}
  {nowMs nowSecs : Nat}

variable {datagram : List Byte}

theorem receive_fst (deobfuscate : Bytes 16 → List Byte → Option (Byte × List Byte))
    (obfKey : Bytes 16) :
    (server.receive suite src datagram nowMs nowSecs).1 =
      match decode (datagram.take rxBytes) with
      | some message =>
        server.step suite deobfuscate obfKey (.datagram src message nowMs nowSecs)
      | none => server := by
  unfold receive
  cases decode (datagram.take rxBytes) <;> rfl

theorem accepted_datagram {message : Message} {registration : Registration} :
    server.accepted suite deobfuscate obfKey (.datagram src message nowMs nowSecs) =
      some registration ↔
      registration.path = .udp ∧ (server.rateOk src nowMs).2 ∧
      server.believed suite message nowSecs = some (registration.node, registration.counter) ∧
      server.Fresh registration.node registration.counter nowMs := by
  obtain ⟨rates, counted⟩ := server.rateOk_fst src nowMs
  have judged (node : NodeId) (counter : Nat) :
      ((server.rateOk src nowMs).1.registerIfFresh node counter src nowMs).2 = true ↔
        server.Fresh node counter nowMs := by
    rw [counted]
    exact registerIfFresh_snd
  unfold accepted carried admitsNow
  rw [Option.filter_eq_some_iff, Option.map_eq_some_iff, Bool.and_eq_true, judged]
  constructor
  · rintro ⟨⟨⟨node, counter⟩, believes, rfl⟩, budget, fresh⟩
    exact ⟨rfl, budget, believes, fresh⟩
  · rintro ⟨path, budget, believes, fresh⟩
    obtain ⟨_, node, counter⟩ := registration
    obtain rfl := path
    exact ⟨⟨(node, counter), believes, rfl⟩, budget, fresh⟩

theorem decode_take_registerSigned {record : Record}
    (encoded : encode (.registerSigned record) = some datagram) (long : rxBytes < datagram.length) :
    decode (datagram.take rxBytes) = none := by
  obtain ⟨body, written, rfl⟩ := Option.map_eq_some_iff.mp encoded
  obtain ⟨bytes, isBytes, measured⟩ := Option.bind_eq_some_iff.mp written
  obtain ⟨field, isField, same⟩ := Option.bind_eq_some_iff.mp measured
  obtain rfl := Option.some.inj same
  obtain ⟨fits, rfl⟩ := lengthField_eq_some_iff.mp isField
  have width : (toBeBytes 2 bytes.length).length = 2 := length_toBeBytes 2 bytes.length
  have cut : (Byte.ofNat 7 :: (toBeBytes 2 bytes.length ++ bytes)).take rxBytes =
      Byte.ofNat 7 :: (toBeBytes 2 bytes.length ++ bytes.take (rxBytes - 3)) := by
    rw [rxBytes, take_succ_cons, take_append, width,
      take_of_length_le (by rw [width]; decide)]
  have short : takeBytes bytes.length (bytes.take (rxBytes - 3)) = none := by
    unfold takeBytes
    rw [dif_neg]
    rw [length_cons, length_append, width] at long
    rw [length_take, rxBytes]
    rw [rxBytes] at long
    omega
  rw [cut]
  simp [decode, decodeBody, Byte.toNat_ofNat, takeRecord, takeUint_append 2 fits, short]

end RendezvousServer

/-! ### What a node sends -/

namespace Registrar

/-- A registration on its way, with the reading of the node's wall clock at the tick that sent
it. -/
structure Sent where
  message : Message
  wallMs : Nat
  deriving DecidableEq

/-- What a node sends: a plain registration, or a record signed with its own key and numbered by its
clock. -/
inductive Own (suite : Suite) (node : NodeId) : Sent → Prop where
  | plain (wallMs : Nat) : Own suite node ⟨.register node 0, wallMs⟩
  | signed (record : Record) (wallMs : Nat) (signPriv : Bytes 32) (bound : record.nodeId = node)
      (sized : record.Sized) (encoded : (encode (.registerSigned record)).isSome)
      (seq : record.seq = wallMs + 1) (signed : record.SignedBy suite signPriv)
      (isKey : suite.ed.isKey record.cert.memberSignPubkey)
      (verifies : ∀ body,
        suite.ed.verifyStrict record.cert.memberSignPubkey body (suite.sign signPriv body)) :
    Own suite node ⟨.registerSigned record, wallMs⟩

def number : Message → Option Nat
  | .registerSigned record => some record.seq
  | _ => none

/-- The certificate of a member is for its own keys: it names the node, and what the node signs
verifies under it. -/
structure Credible (suite : Suite) (node : NodeId) (m : Membership) : Prop where
  bound : nodeId suite m.ownCert.memberPubkey = node
  notBefore : m.ownCert.notBefore < 256 ^ 8
  notAfter : m.ownCert.notAfter < 256 ^ 8
  isKey : suite.ed.isKey m.ownCert.memberSignPubkey
  verifies : ∀ body,
    suite.ed.verifyStrict m.ownCert.memberSignPubkey body (suite.sign m.signPriv body)

variable {suite : Suite} {registrar : Registrar} {node : NodeId}

theorem own_message {wallMs : Nat} {message : Message} (isNode : registrar.localNodeId = node)
    (credible : ∀ m ∈ registrar.membership, Credible suite node m) (low : wallMs + 1 < 256 ^ 8)
    (built : registrar.message suite (wallMs + 1) = some message)
    (encoded : (encode message).isSome) :
    Own suite node ⟨message, wallMs⟩ ∧ ∀ counter ∈ number message, counter = wallMs + 1 := by
  unfold Registrar.message at built
  split at built
  · rename_i m isMember
    obtain ⟨bound, early, late, isKey, verifies⟩ := credible m isMember
    obtain ⟨record, signed, rfl⟩ := Option.map_eq_some_iff.mp built
    obtain ⟨isCert, -, seq, isSigned⟩ := buildSignedRecord_eq_some signed
    have named : record.nodeId = node := by rw [isSigned.nodeId, isCert, bound]
    rw [← isCert] at early late isKey verifies
    refine ⟨.signed record wallMs m.signPriv named ⟨early, late, seq.trans_lt low⟩ encoded seq
      isSigned isKey verifies, ?_⟩
    rintro counter ⟨⟩
    exact seq
  · obtain rfl := Option.some.inj built
    rw [isNode]
    exact ⟨.plain wallMs, nofun⟩

theorem tick_cases (registrar : Registrar) (nowMs wallMs : Nat) (obfOn : Bool) (jittered : Nat) :
    registrar.tick suite nowMs wallMs obfOn jittered = (registrar, none) ∨
    ((registrar.tick suite nowMs wallMs obfOn jittered).1.regSeq =
        saturatingAdd (max registrar.regSeq wallMs) 1 ∧
      (registrar.tick suite nowMs wallMs obfOn jittered).1.localNodeId = registrar.localNodeId ∧
      (registrar.tick suite nowMs wallMs obfOn jittered).1.membership = registrar.membership ∧
      (registrar.tick suite nowMs wallMs obfOn jittered).2 =
        (registrar.message suite (saturatingAdd (max registrar.regSeq wallMs) 1)).filter
          fun message => (encode message).isSome) := by
  unfold tick
  split
  · exact Or.inr ⟨rfl, rfl, rfl, rfl⟩
  · exact Or.inl rfl

theorem Own.decode_take {sent : Sent} (own : Own suite node sent) :
    decode (((encode sent.message).getD []).take RendezvousServer.rxBytes) =
      if ((encode sent.message).getD []).length ≤ RendezvousServer.rxBytes then some sent.message
      else none := by
  have whole {message : Message} {datagram : List Byte} (sized : message.Sized)
      (encoded : encode message = some datagram)
      (fits : datagram.length ≤ RendezvousServer.rxBytes) :
      decode (datagram.take RendezvousServer.rxBytes) = some message := by
    rw [take_of_length_le fits]
    exact decode_encode sized encoded
  cases own with
  | plain wallMs =>
    have fits : ((encode (.register node 0)).getD []).length ≤ RendezvousServer.rxBytes := by
      change (Byte.ofNat 0 :: (node.toList ++ toBeBytes 8 0)).length ≤ _
      rw [length_cons, length_append, node.toList_length, length_toBeBytes]
      decide
    rw [if_pos fits]
    exact whole (show (0 : Nat) < 256 ^ 8 by decide) rfl fits
  | signed record wallMs signPriv bound sized encoded seq signed isKey verifies =>
    obtain ⟨datagram, isDatagram⟩ := Option.isSome_iff_exists.mp encoded
    rw [isDatagram, Option.getD_some]
    split
    · rename_i fits
      exact whole sized isDatagram fits
    · rename_i long
      exact RendezvousServer.decode_take_registerSigned isDatagram (not_le.mp long)

end Registrar

/-! ### Runs -/

/-- A node, its server and the registrations on their way, the oldest first. -/
structure Link where
  registrar : Registrar
  server : RendezvousServer
  inFlight : List Registrar.Sent

inductive Link.Event where
  | tick (nowMs wallMs : Nat) (obfOn : Bool) (jittered : Nat)
  | arrive (src : Members.SocketAddr) (nowMs nowSecs : Nat)
  | lose
  | elsewhere (event : Rdv.Event)
  | member (m : Membership)

namespace Link

open Registrar RendezvousServer

section Runs

variable (suite : Suite) (deobfuscate : Bytes 16 → List Byte → Option (Byte × List Byte))
  (obfKey : Bytes 16)

def start (node : NodeId) (membership : Option Membership) (wallMs : Nat)
    (server : RendezvousServer) : Link := ⟨Registrar.new node membership wallMs, server, []⟩

def step (link : Link) : Event → Link
  | .tick nowMs wallMs obfOn jittered =>
    let (registrar, message) := link.registrar.tick suite nowMs wallMs obfOn jittered
    { link with
      registrar := registrar
      inFlight := link.inFlight ++ message.toList.map fun message => ⟨message, wallMs⟩ }
  | .arrive src nowMs nowSecs =>
    match link.inFlight with
    | [] => link
    | sent :: rest =>
      { link with
        server := (link.server.receive suite src ((encode sent.message).getD []) nowMs nowSecs).1
        inFlight := rest }
  | .lose => { link with inFlight := link.inFlight.tail }
  | .elsewhere event => { link with server := link.server.step suite deobfuscate obfKey event }
  | .member m =>
    { link with registrar.membership := link.registrar.membership.map fun _ => m }

/-- What the run is to keep to: the wall clock of the node has passed the last number it used when
it registers again, nobody else registers the node over UDP, and a new certificate is for the node's
own keys. -/
def Fair (link : Link) : Event → Prop
  | .tick _ wallMs _ _ => link.registrar.regSeq ≤ wallMs ∧ wallMs + 1 < u64Limit
  | .elsewhere event =>
    ∀ registration ∈ link.server.carried suite deobfuscate obfKey event,
      registration.path = .udp → registration.node ≠ link.registrar.localNodeId
  | .member m => Credible suite link.registrar.localNodeId m
  | .arrive _ _ _ | .lose => True

/-- The numbers of the registrations on their way increase, and all are above the one the server
has for the node. -/
structure Ordered (node : NodeId) (link : Link) : Prop where
  isNode : link.registrar.localNodeId = node
  credible : ∀ m ∈ link.registrar.membership, Credible suite node m
  own : ∀ sent ∈ link.inFlight, Own suite node sent
  sorted : link.inFlight.Pairwise fun earlier later =>
    ∀ first ∈ number earlier.message, ∀ second ∈ number later.message, first < second
  bounded : ∀ sent ∈ link.inFlight, ∀ counter ∈ number sent.message,
    counter ≤ link.registrar.regSeq
  covered : ∀ last, link.server.lastCounter .udp node = some last → last ≤ link.registrar.regSeq
  ahead : ∀ sent ∈ link.inFlight, ∀ counter ∈ number sent.message,
    ∀ last, link.server.lastCounter .udp node = some last → last < counter

variable {suite deobfuscate obfKey} {node : NodeId} {link : Link}

theorem Ordered.tick (ordered : Ordered suite node link) {nowMs wallMs : Nat} {obfOn : Bool}
    {jittered : Nat} (passed : link.registrar.regSeq ≤ wallMs) (early : wallMs + 1 < u64Limit) :
    Ordered suite node
      (link.step suite deobfuscate obfKey (.tick nowMs wallMs obfOn jittered)) := by
  obtain ⟨isNode, credible, own, sorted, bounded, covered, ahead⟩ := ordered
  change Ordered suite node ⟨(link.registrar.tick suite nowMs wallMs obfOn jittered).1, link.server,
    link.inFlight ++ (link.registrar.tick suite nowMs wallMs obfOn jittered).2.toList.map
      fun message => ⟨message, wallMs⟩⟩
  rcases link.registrar.tick_cases nowMs wallMs obfOn jittered with idle | ⟨seq, same, kept, sent⟩
  · rw [idle, Option.toList_none, map_nil, append_nil]
    exact ⟨isNode, credible, own, sorted, bounded, covered, ahead⟩
  have next : saturatingAdd (max link.registrar.regSeq wallMs) 1 = wallMs + 1 := by
    rw [max_eq_right passed]
    exact min_eq_left (by omega)
  rw [next] at seq sent
  have above : link.registrar.regSeq < wallMs + 1 := Nat.lt_succ_of_le passed
  have isNewest (added : Sent) (isAdded : added ∈
      (link.registrar.tick suite nowMs wallMs obfOn jittered).2.toList.map
        fun message => ⟨message, wallMs⟩) :
      Own suite node added ∧ ∀ counter ∈ number added.message, counter = wallMs + 1 := by
    obtain ⟨message, isSent, rfl⟩ := mem_map.mp isAdded
    rw [Option.mem_toList, sent] at isSent
    obtain ⟨built, encoded⟩ := Option.filter_eq_some_iff.mp isSent
    exact own_message isNode credible early built encoded
  refine ⟨same.trans isNode, fun m isMember => credible m (kept ▸ isMember), ?_, ?_, ?_, ?_, ?_⟩
  · exact forall_mem_append.mpr ⟨own, fun added isAdded => (isNewest added isAdded).1⟩
  · refine pairwise_append.mpr ⟨sorted, ?_, ?_⟩
    · cases (link.registrar.tick suite nowMs wallMs obfOn jittered).2 with
      | none => exact List.Pairwise.nil
      | some message => exact pairwise_singleton _ _
    · intro earlier before later added first isFirst second isSecond
      rw [(isNewest later added).2 second isSecond]
      exact (bounded earlier before first isFirst).trans_lt above
  · intro sent isSent counter isCounter
    rw [seq]
    rcases mem_append.mp isSent with before | added
    · exact (bounded sent before counter isCounter).trans above.le
    · exact ((isNewest sent added).2 counter isCounter).le
  · intro last isLast
    rw [seq]
    exact (covered last isLast).trans above.le
  · intro sent isSent counter isCounter last isLast
    rcases mem_append.mp isSent with before | added
    · exact ahead sent before counter isCounter last isLast
    · rw [(isNewest sent added).2 counter isCounter]
      exact (covered last isLast).trans_lt above

variable {sent : Sent}

theorem Ordered.arrive (ordered : Ordered suite node link) {rest : List Sent}
    (pending : link.inFlight = sent :: rest) {server : RendezvousServer}
    (moved : ∀ last, server.lastCounter .udp node = some last →
      link.server.lastCounter .udp node = some last ∨ last = (number sent.message).getD 0) :
    Ordered suite node { link with server := server, inFlight := rest } := by
  obtain ⟨isNode, credible, own, sorted, bounded, covered, ahead⟩ := ordered
  rw [pending] at own sorted bounded ahead
  obtain ⟨below, sorted⟩ := pairwise_cons.mp sorted
  refine ⟨isNode, credible, fun later isLater => own later (mem_cons_of_mem _ isLater), sorted,
    fun later isLater => bounded later (mem_cons_of_mem _ isLater), ?_, ?_⟩
  · intro last isLast
    rcases moved last isLast with before | rfl
    · exact covered last before
    · cases isNumber : number sent.message with
      | none => exact Nat.zero_le _
      | some counter => exact bounded sent mem_cons_self counter isNumber
  · intro later isLater counter isCounter last isLast
    rcases moved last isLast with before | rfl
    · exact ahead later (mem_cons_of_mem _ isLater) counter isCounter last before
    · cases isNumber : number sent.message with
      | none =>
        cases own later (mem_cons_of_mem _ isLater) with
        | plain wallMs => cases isCounter
        | signed record wallMs signPriv bound sized encoded seq signed isKey verifies =>
          obtain rfl := Option.some.inj isCounter
          rw [seq]
          exact Nat.succ_pos wallMs
      | some first => exact below later isLater first isNumber counter isCounter

theorem believed_own {server : RendezvousServer} (own : Own suite node sent) {nowSecs : Nat}
    {registered : NodeId} {counter : Nat}
    (believes : server.believed suite sent.message nowSecs = some (registered, counter)) :
    registered = node ∧ counter = (number sent.message).getD 0 := by
  cases own with
  | plain wallMs =>
    unfold believed at believes
    dsimp only at believes
    split at believes
    · cases believes
    · obtain ⟨rfl, rfl⟩ := Prod.mk.inj (Option.some.inj believes)
      exact ⟨rfl, rfl⟩
  | signed record wallMs signPriv bound sized encoded seq signed isKey verifies =>
    unfold believed at believes
    dsimp only at believes
    split at believes
    · obtain ⟨rfl, rfl⟩ := Prod.mk.inj (Option.some.inj believes)
      exact ⟨bound, rfl⟩
    · cases believes

theorem Ordered.step (ordered : Ordered suite node link) {event : Event}
    (fair : link.Fair suite deobfuscate obfKey event) :
    Ordered suite node (link.step suite deobfuscate obfKey event) := by
  cases event with
  | tick nowMs wallMs obfOn jittered => exact ordered.tick fair.1 fair.2
  | arrive src nowMs nowSecs =>
    unfold Link.step
    dsimp only
    split
    · exact ordered
    · rename_i sent rest pending
      have own := ordered.own sent (pending ▸ mem_cons_self)
      refine ordered.arrive pending ?_
      intro last isLast
      rw [receive_fst deobfuscate obfKey, own.decode_take] at isLast
      split at isLast
      · rename_i read isRead
        obtain ⟨-, same⟩ := Option.ite_none_right_eq_some.mp isRead
        obtain rfl := Option.some.inj same
        rcases link.server.step_cases (.datagram src sent.message nowMs nowSecs) with
          ⟨registration, accepted, enters⟩ | ⟨-, keeps⟩
        · obtain ⟨path, -, believes, -⟩ := accepted_datagram.mp accepted
          obtain ⟨registers, counter⟩ := believed_own own believes
          have entry := enters.entry
          rw [path, registers, isLast] at entry
          exact Or.inr ((Option.some.inj entry).trans counter)
        · exact Or.inl (keeps _ _ _ isLast)
      · exact Or.inl isLast
  | lose =>
    unfold Link.step
    cases pending : link.inFlight with
    | nil =>
      obtain ⟨registrar, server, inFlight⟩ := link
      obtain rfl := pending
      exact ordered
    | cons sent rest => exact ordered.arrive pending fun last isLast => Or.inl isLast
  | elsewhere event =>
    have kept (last : Nat)
        (isLast : (link.server.step suite deobfuscate obfKey event).lastCounter .udp node =
          some last) : link.server.lastCounter .udp node = some last := by
      rcases link.server.step_cases event with ⟨registration, accepted, enters⟩ | ⟨-, keeps⟩
      · have carried := (Option.filter_eq_some_iff.mp accepted).1
        rw [← enters.others .udp node, isLast]
        intro same
        obtain ⟨path, registers⟩ := Prod.mk.inj same
        exact fair registration carried path.symm (registers.symm.trans ordered.isNode.symm)
      · exact keeps _ _ _ isLast
    exact ⟨ordered.isNode, ordered.credible, ordered.own, ordered.sorted, ordered.bounded,
      fun last isLast => ordered.covered last (kept last isLast),
      fun sent pending counter isCounter last isLast =>
        ordered.ahead sent pending counter isCounter last (kept last isLast)⟩
  | member m =>
    refine ⟨ordered.isNode, ?_, ordered.own, ordered.sorted, ordered.bounded, ordered.covered,
      ordered.ahead⟩
    intro current isCurrent
    obtain ⟨_, -, rfl⟩ := Option.map_eq_some_iff.mp isCurrent
    rw [← ordered.isNode]
    exact fair

end Runs

section Cases

open Transparent Audit

def node : NodeId := nodeId suite (all 32 1)

end Cases

end Link

end Yip.Rdv
