/-
This file is about where a peer is.
-/

import Yip.PeerManager.Admission

namespace Yip

open Crypto Transport List Option

/-! ### Epochs -/

theorem forall_mem_none {Epoch : Type} {Holds : Epoch → Prop} :
    ∀ epoch ∈ (none : Option Epoch), Holds epoch :=
  fun epoch absent => (not_mem_none epoch absent).elim

namespace EpochSet

variable {env : Primitives} {set : EpochSet env} {addr : SocketAddr}

/-- All that the session sends goes to this address. -/
structure SendsTo (set : EpochSet env) (addr : SocketAddr) : Prop where
  current : set.current.peerAddr = addr
  next : ∀ next ∈ set.next, next.dp.peerAddr = addr
  rekey : ∀ rekey ∈ set.rekey, rekey.target = addr

theorem SendsTo.inboundOpen (sends : set.SendsTo addr) (datagram : List Byte) (nowMs : Nat) :
    (set.inboundOpen datagram nowMs).1.SendsTo addr := by
  have offered (next : NextEpoch env) (isNext : next ∈ set.next) :
      (next.dp.onUdpDatagram datagram nowMs).1.peerAddr = addr :=
    (next.dp.onUdpDatagram_acts datagram nowMs).peerAddr.trans (sends.next next isNext)
  obtain ⟨rekey, ⟨current, next⟩ | ⟨next, isNext, alone, current, _⟩⟩ :=
    set.inboundOpen_cases datagram nowMs
  · refine ⟨?_, fun found isFound => ?_, rekey ▸ sends.rekey⟩
    · rw [current]
      exact (set.current.onUdpDatagram_acts datagram nowMs).peerAddr.trans sends.current
    · rcases next with same | moved
      · exact sends.next found (same ▸ isFound)
      · obtain ⟨old, isOld, rfl⟩ := map_eq_some_iff.mp (moved ▸ isFound)
        exact offered old isOld
  · exact ⟨current ▸ offered next isNext, alone ▸ forall_mem_none, rekey ▸ sends.rekey⟩

theorem setPeerAddr_sendsTo (set : EpochSet env) (addr : SocketAddr) :
    (set.setPeerAddr addr).SendsTo addr := by
  refine ⟨(set.current.setPeerAddr_acts addr).peerAddr, fun next isNext => ?_,
    fun rekey isRekey => ?_⟩
  · obtain ⟨old, _, rfl⟩ := map_eq_some_iff.mp isNext
    exact (old.dp.setPeerAddr_acts addr).peerAddr
  · obtain ⟨old, _, rfl⟩ := map_eq_some_iff.mp isRekey
    rfl

end EpochSet

namespace PeerManager

variable {env : Primitives} {pm after : PeerManager env} {peer : Peer env} {idx : Nat}
  {occasion : Warrant}

/-! ### Peers -/

/-- A peer with a direct session sends where its endpoint says. -/
def Settled (peer : Peer env) : Prop :=
  peer.relay = false → ∀ epochs, peer.state = .established epochs →
    ∃ addr, peer.endpoint = some addr ∧ epochs.SendsTo addr

theorem settled_of_waiting (waiting : peer.state.isEstablished = false) : Settled peer := by
  intro _ epochs live
  rw [live] at waiting
  cases waiting

theorem settled_of_relayed (relayed : peer.relay = true) : Settled peer :=
  fun direct => absurd (relayed.symm.trans direct) nofun

theorem Settled.of_epochs {updated : Peer env} {old epochs : EpochSet env} (settled : Settled peer)
    (had : peer.state = .established old) (has : updated.state = .established epochs)
    (relay : updated.relay = peer.relay) (endpoint : updated.endpoint = peer.endpoint)
    (sends : ∀ addr, old.SendsTo addr → epochs.SendsTo addr) : Settled updated := by
  intro direct found live
  obtain ⟨addr, isEndpoint, before⟩ := settled (relay ▸ direct) old had
  cases has.symm.trans live
  exact ⟨addr, endpoint.trans isEndpoint, sends addr before⟩

theorem Settled.relearnEndpoint (settled : Settled peer) (src : SocketAddr) :
    Settled (peer.relearnEndpoint src) := by
  rcases peer.relearnEndpoint_cases src with same | ⟨addr, moved⟩
  · exact same.symm ▸ settled
  · rw [moved]
    intro direct epochs live
    unfold Peer.moveTo at live
    cases state : peer.state with
    | established old =>
      rw [state] at live
      cases live
      exact ⟨addr, rfl, old.setPeerAddr_sendsTo addr⟩
    | idle | handshaking => rw [state] at live; cases live

variable {epochs : EpochSet env} {addr : SocketAddr}

theorem driveRekeySchedule_sendsTo (moment : Moment)
    (sends : epochs.SendsTo addr) (direct : peer.relay = false)
    (endpoint : peer.endpoint = some addr) :
    (pm.driveRekeySchedule idx peer epochs moment).1.SendsTo addr := by
  unfold driveRekeySchedule
  split
  · dsimp only
    split
    · exact sends
    · simp only [direct, endpoint, Bool.false_eq_true, if_false]
      cases pm.startInitiator peer.pubkey (moment.initSeed idx) moment.nowTai64n with
      | none => exact sends
      | some started =>
        refine { sends with rekey := ?_ }
        rintro _ ⟨⟩
        rfl
  · rename_i rekey inFlight
    have target := sends.rekey rekey inFlight
    split
    · exact { sends with rekey := forall_mem_none }
    · split
      · exact sends
      · refine { sends with rekey := ?_ }
        rintro _ ⟨⟩
        exact target

theorem retirePreviousIfDue_sendsTo (nowMs : Nat)
    (sends : epochs.SendsTo addr) : (epochs.retirePreviousIfDue nowMs).SendsTo addr := by
  unfold EpochSet.retirePreviousIfDue
  split
  · exact { sends with }
  · exact sends

theorem Touch.settled {touched : Peer env} (touch : Touch occasion pm peer touched)
    (placed : ∀ endpoint addr, occasion.place endpoint addr → endpoint = some addr)
    (settled : Settled peer) : Settled touched := by
  cases touch with
  | begins | reverts | escalates | retargets | resends | expires => exact settled_of_waiting rfl
  | asks | renews => exact settled
  | advances _ waiting => exact settled_of_waiting waiting
  | learns _ _ waiting => exact settled_of_waiting waiting
  | buffers _ _ waiting => exact settled_of_waiting waiting
  | flags waiting => exact settled_of_waiting waiting
  | detours => exact settled_of_relayed rfl
  | installs init initEph peerAddr epochs given live fresh way =>
    intro direct installed isInstalled
    cases isInstalled
    obtain ⟨addr, endpoint, sends⟩ := settled direct epochs live
    refine ⟨addr, endpoint, { sends with next := ?_ }⟩
    rintro _ ⟨⟩
    exact some.inj ((placed _ _ (way direct)).symm.trans endpoint)
  | concludes dg epochs given live =>
    exact settled.of_epochs live rfl rfl rfl fun _ sends => { sends with rekey := forall_mem_none }
  | opens dg nowMs epochs given live =>
    exact settled.of_epochs live rfl rfl rfl fun _ sends => sends.inboundOpen dg nowMs
  | roams _ src => exact settled.relearnEndpoint src
  | seals inner nowMs epochs given live =>
    refine settled.of_epochs live rfl rfl rfl fun _ sends => { sends with current := ?_ }
    exact (epochs.current.onTunPacket_acts inner nowMs).peerAddr.trans sends.current
  | clocks idx moment jittered epochs scheduled given live schedule =>
    intro direct found isFound
    cases isFound
    obtain ⟨addr, endpoint, sends⟩ := settled direct epochs live
    have driven : scheduled.SendsTo addr := by
      rw [schedule]
      exact driveRekeySchedule_sendsTo moment (retirePreviousIfDue_sendsTo moment.nowMs sends)
        direct endpoint
    refine ⟨addr, endpoint, { driven with current := ?_ }⟩
    exact (scheduled.current.tick_acts moment.nowMs jittered).peerAddr.trans driven.current

theorem drainPending_peerAddr (dp : DataPlane env) (nowMs : Nat) (pending : List (List Byte)) :
    (drainPending dp nowMs pending).1.peerAddr = dp.peerAddr := by
  induction pending generalizing dp with
  | nil => rfl
  | cons inner rest ih =>
    exact (ih _).trans (dp.onTunPacket_acts inner nowMs).peerAddr

theorem strided_peerAddr (pm : PeerManager env) (dp : DataPlane env) :
    (pm.strided dp).peerAddr = dp.peerAddr := by
  unfold strided
  split <;> rfl

theorem startEpochs_sendsTo (pm : PeerManager env) (established : Established)
    (peerAddr : SocketAddr) (viaRelay : Bool) (nowMs : Nat) (pending : List (List Byte)) :
    (pm.startEpochs established peerAddr viaRelay nowMs pending).SendsTo peerAddr := by
  have drained := drainPending_peerAddr (pm.dataPlane established peerAddr) nowMs pending
  cases viaRelay with
  | true => exact ⟨(strided_peerAddr ..).trans drained, forall_mem_none, forall_mem_none⟩
  | false => exact ⟨(strided_peerAddr ..).trans drained, forall_mem_none, forall_mem_none⟩

theorem Begun.settled {begun : Peer env} (begins : Begun occasion pm peer begun)
    (settled : Settled peer) : Settled begun := by
  intro direct found isFound
  cases begins with
  | responds init peerAddr viaRelay moment =>
    cases isFound
    exact ⟨peerAddr, if_neg (Bool.eq_false_iff.mp direct), startEpochs_sendsTo ..⟩
  | completes handshaking dg established payload peerAddr viaRelay moment =>
    cases isFound
    exact ⟨peerAddr, if_neg (Bool.eq_false_iff.mp direct), startEpochs_sendsTo ..⟩
  | rekeys epochs rekey dg established payload viaRelay moment live inFlight given read admits
      way =>
    cases isFound
    obtain ⟨addr, endpoint, sends⟩ := settled direct epochs live
    obtain rfl : false = viaRelay := direct.symm.trans way
    refine ⟨addr, endpoint, (strided_peerAddr ..).trans ?_, sends.next, forall_mem_none⟩
    exact (drainPending_peerAddr ..).trans (sends.rekey rekey inFlight)

/-! ### Managers -/

def AllSettled (pm : PeerManager env) : Prop := ∀ peer ∈ pm.peers, Settled peer

theorem allSettled_iff :
    pm.AllSettled ↔ ∀ idx : Nat, ∀ peer ∈ pm.peers[idx]?, Settled peer := by
  refine ⟨fun all idx peer holds => all peer (mem_of_getElem? holds), fun all peer member => ?_⟩
  obtain ⟨idx, holds⟩ := mem_iff_getElem?.mp member
  exact all idx peer holds

theorem AllSettled.pushPeer (all : pm.AllSettled) {fresh : Peer env} (idle : fresh.state = .idle) :
    (pm.pushPeer fresh).AllSettled := by
  have waits : Settled fresh := settled_of_waiting (by rw [idle]; rfl)
  exact forall_mem_append.mpr ⟨all, forall_mem_singleton.mpr waits⟩

theorem AllSettled.quiet (all : pm.AllSettled) (quiet : Quiet occasion pm after)
    (placed : ∀ endpoint addr, occasion.place endpoint addr → endpoint = some addr) :
    after.AllSettled := by
  rw [allSettled_iff] at all ⊢
  intro idx
  refine quiet.seat (motive := fun before after => (∀ peer ∈ before, Settled peer) →
    ∀ peer ∈ after, Settled peer) idx (fun _ => id) ?_ ?_ ?_ (all idx)
  · rintro peer touched touch settled _ ⟨⟩
    exact touch.settled placed (settled peer rfl)
  · rintro _ _ _ _ _ ⟨⟩
    exact settled_of_waiting rfl
  · rintro _ _ _ _ ⟨⟩
    exact settled_of_waiting rfl

theorem AllSettled.starts (all : pm.AllSettled) (starts : Starts occasion pm after) :
    after.AllSettled := by
  rw [allSettled_iff] at all ⊢
  intro idx
  refine starts.seat (motive := fun before after => (∀ peer ∈ before, Settled peer) →
    ∀ peer ∈ after, Settled peer) idx (fun _ => id) ?_ (all idx)
  rintro peer begun begins settled _ ⟨⟩
  exact begins.settled (settled peer rfl)

theorem AllSettled.course (all : pm.AllSettled) (course : Course occasion pm after)
    (placed : ∀ endpoint addr, occasion.place endpoint addr → endpoint = some addr) :
    after.AllSettled := by
  obtain ⟨quieted, moves, ends⟩ := course
  have kept : quieted.AllSettled := by
    clear ends
    induction moves with
    | refl => exact all
    | tail _ quiet ih => exact ih.quiet quiet placed
  rcases ends with rfl | starts
  · exact kept
  · exact kept.starts starts

/-! ### Events -/

/-- A direct Init accepted over a live session comes from the peer's endpoint, and a session taken
over has an endpoint or is relayed. -/
def Placed (pm : PeerManager env) : ShardEvent → Prop
  | .own (.udp src dg moment) =>
    ∀ arrived ∈ pm.arrival src dg, arrived.1 = none → ∀ init ∈ pm.readInit arrived.2 moment,
      ∀ peer ∈ pm.peers, peer.state.isEstablished = true → peer.pubkey = init.remoteStatic →
        pm.acceptsInit peer init false moment.nowSecs = true → peer.endpoint = some src
  | .install peerPk _ endpoint =>
    let known := (pm.position fun peer => peer.pubkey = peerPk).bind (pm.peers[·]?)
    known.any (·.relay) ∨ (endpoint.or (known.bind (·.endpoint))).isSome
  | .own _ => True

instance (pm : PeerManager env) (event : ShardEvent) : Decidable (pm.Placed event) := by
  cases event with
  | own event => cases event <;> unfold Placed <;> infer_instance
  | install =>
    unfold Placed
    infer_instance

theorem Placed.endpoint {event : Event} (placed : pm.Placed (.own event))
    (endpoint : Option SocketAddr) (addr : SocketAddr) (way : pm.eventPlace event endpoint addr) :
    endpoint = some addr := by
  cases event with
  | udp src dg moment =>
    obtain ⟨rfl, arrived, init, read, peer, member, live, own, accepts, rfl⟩ := way
    exact placed _ arrived rfl init read peer member live own accepts
  | tun | tick | addPeer | admitMember | removePeer | drainNewEpochs => exact way.elim

theorem Placed.address {admitted : PeerManager env} {peerPk : Key} {established : Established}
    {endpoint : Option SocketAddr} {addr : SocketAddr}
    (placed : pm.Placed (.install peerPk established endpoint))
    (seat : (pm.position fun peer => peer.pubkey = peerPk) = some idx ∧ admitted = pm ∨
      (pm.position fun peer => peer.pubkey = peerPk) = none)
    (holds : admitted.peers[idx]? = some peer)
    (address : addr = (endpoint.or peer.endpoint).getD ⟨0, 0⟩) (direct : peer.relay = false) :
    endpoint.or peer.endpoint = some addr := by
  have given : (endpoint.or peer.endpoint).isSome := by
    change Option.any _ (Option.bind (pm.position _) _) = true ∨ _ at placed
    rcases seat with ⟨found, rfl⟩ | nowhere
    · rw [found, bind_some, holds] at placed
      exact placed.resolve_left (Bool.eq_false_iff.mp direct)
    · rw [nowhere] at placed
      have given : endpoint.isSome := by simpa using placed
      simp [given]
  obtain ⟨found, isFound⟩ := isSome_iff_exists.mp given
  rw [address, isFound]
  rfl

theorem AllSettled.shardStep (all : pm.AllSettled) {event : ShardEvent} (placed : pm.Placed event) :
    (pm.shardStep event).AllSettled := by
  have stepped := pm.shardStep_stepped event
  generalize pm.shardStep event = after at stepped ⊢
  cases stepped with
  | course _ _ _ course => exact all.course course placed.endpoint
  | added => exact all.pushPeer rfl
  | removed pubkey idx _ _ _ peers =>
    have dropped : (pm.dropSession idx).AllSettled :=
      all.quiet (Quiet.drop idx trivial : Quiet Occasion.any pm _) fun _ _ => False.elim
    exact fun peer member => dropped peer (mem_of_mem_eraseIdx (peers ▸ member))
  | installed peerPk established endpoint admitted _ idx addr moves _ peers seat address =>
    have kept := all.course moves.course fun _ _ => False.elim
    refine allSettled_iff.mpr fun position peer holds => ?_
    rw [peers] at holds
    obtain ⟨old, had, rfl | ⟨rfl, rfl⟩⟩ := modifyPeer_cases holds
    · exact kept _ (mem_of_getElem? had)
    · intro direct epochs live
      cases live
      refine ⟨addr, placed.address seat had (address old had) direct, ?_, forall_mem_none,
        forall_mem_none⟩
      by_cases sharded : pm.numShards > 1
      · rw [if_pos sharded]
        rfl
      · rw [if_neg sharded]
        rfl
  | unknown _ _ _ _ moves => exact all.course moves.course fun _ _ => False.elim
  | drained | ignored => exact all

theorem new_allSettled (config : Config env) : (new config).AllSettled := by
  refine new_induction AllSettled config ?_ ?_
  · exact fun _ member => absurd member not_mem_nil
  · exact fun pm pubkey endpoint isStatic endpoints nowMs all => all.pushPeer rfl

/-- In every run in which Inits that are accepted for live sessions come from the endpoint of the
peer, or over the relay, and sessions that are handed over have an endpoint, every peer with a
session that is not relayed is sent to at its endpoint. -/
theorem sessions_send_to_endpoint (config : Config env) (events : List ShardEvent)
    (placed : Machine.Admissible shardStep Placed (new config) events) :
    ∀ peer ∈ (Machine.run shardStep (new config) events).peers, peer.relay = false →
      ∀ epochs, peer.state = .established epochs →
        peer.endpoint = some epochs.current.peerAddr := by
  have all : (Machine.run shardStep (new config) events).AllSettled :=
    Machine.run_invariant shardStep Placed AllSettled (fun _ _ all placed => all.shardStep placed) _
      events (new_allSettled config) placed
  intro peer member direct epochs live
  obtain ⟨addr, endpoint, sends⟩ := all peer member direct epochs live
  rw [endpoint, sends.current]

section Runs

open Transparent

def rekeyedAt (src : SocketAddr) : List ShardEvent :=
  [.own (.udp ⟨1, 1⟩ (init 1 7 10 []) (moment 0 0 0 7)),
    .own (.udp src (init 1 9 20 []) (moment 1 0 0 9)),
    .own (.udp src (firstData 9 [Byte.ofNat 5]) (moment 2 0 0 0))]

def whereabouts (events : List ShardEvent) : List (Bool × Option SocketAddr × Option SocketAddr) :=
  (Machine.run shardStep (manager 2 [1] none 0 1) events).peers.map fun peer =>
    (peer.relay, peer.endpoint, (epochsOf (some peer)).map (·.current.peerAddr))

/-- A rekey at the endpoint. -/
theorem rekeyedAt_endpoint_sends_there :
    whereabouts (rekeyedAt ⟨1, 1⟩) = [(false, some ⟨1, 1⟩, some ⟨1, 1⟩)] ∧
      ∀ peer ∈ (Machine.run shardStep (manager 2 [1] none 0 1) (rekeyedAt ⟨1, 1⟩)).peers,
        peer.relay = false → ∀ epochs, peer.state = .established epochs →
          peer.endpoint = some epochs.current.peerAddr :=
  ⟨by decide +kernel,
    sessions_send_to_endpoint (config 2 [1] none 0 1) (rekeyedAt ⟨1, 1⟩) (by decide +kernel)⟩

/-- A rekey from another port, where the session sends to from then on. The endpoint stays as it
was. -/
theorem rekey_from_other_port_diverts :
    whereabouts (rekeyedAt ⟨1, 5⟩) = [(false, some ⟨1, 1⟩, some ⟨1, 5⟩)] := by
  decide +kernel

end Runs

end PeerManager

end Yip
