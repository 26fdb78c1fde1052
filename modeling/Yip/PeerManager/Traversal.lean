/-
This file follows the code of the peer manager and shows that it does nothing but the moves of
`Moves`: one theorem for each function, ending in those for the three calls of the event loop.
-/

import Yip.PeerManager.Moves

namespace Yip.PeerManager

open Crypto Transport List Option

variable {env : Primitives} {occasion : Warrant} {pm after between : PeerManager env}

variable {idx : Nat} {peer : Peer env} {init : InitRead} {dg : List Byte} {moment : Moment}
  {nowMs : Nat} {result : PeerManager env × DispatchOut} {srcNode : Nat} {payload : List Byte}

theorem modifyPeer_moves {f : Peer env → Peer env}
    (touches : ∀ peer, pm.peers[idx]? = some peer → Touch occasion pm peer (f peer)) :
    Moves occasion pm (pm.modifyPeer idx f) :=
  .single (.touch idx f touches)

theorem touch_moves {f : Peer env → Peer env} (holds : pm.peers[idx]? = some peer)
    (touch : Touch occasion pm peer (f peer)) : Moves occasion pm (pm.modifyPeer idx f) := by
  refine modifyPeer_moves fun found same => ?_
  cases holds.symm.trans same
  exact touch

theorem admitMember_moves (pubkey : Key) (endpoints : List SocketAddr) (nowMs : Nat) :
    Moves occasion pm (pm.admitMember pubkey endpoints nowMs) := by
  unfold admitMember
  split
  · exact .refl
  · rename_i unknown
    refine .single (.enters pubkey endpoints nowMs fun known member same => unknown (Or.inr ?_))
    exact any_eq_true.mpr ⟨known, member, decide_eq_true same⟩

theorem Moves.setting_eq (moves : Moves occasion pm after) : after.setting = pm.setting := by
  induction moves with
  | refl => rfl
  | tail _ quiet ih => exact quiet.setting_eq.trans ih

/-! ### One peer at a time -/

structure Only (idx : Nat) (pm after : PeerManager env) : Prop where
  elsewhere : ∀ position, position ≠ idx → after.peers[position]? = pm.peers[position]?

theorem Only.refl (idx : Nat) (pm : PeerManager env) : Only idx pm pm := ⟨fun _ _ => rfl⟩

theorem Only.trans {between : PeerManager env} (first : Only idx pm between)
    (second : Only idx between after) : Only idx pm after :=
  ⟨fun position apart => (second.elsewhere position apart).trans (first.elsewhere position apart)⟩

theorem only_of_modify {f : Peer env → Peer env} (modified : after.peers = pm.peers.modify idx f) :
    Only idx pm after := by
  refine ⟨fun position apart => ?_⟩
  rw [modified, getElem?_modify]
  simp [apart.symm]

theorem only_modifyPeer (pm : PeerManager env) (idx : Nat) (f : Peer env → Peer env) :
    Only idx pm (pm.modifyPeer idx f) := only_of_modify rfl

theorem only_startSession (pm : PeerManager env) (idx : Nat) (established : Established)
    (peerAddr : SocketAddr) (viaRelay : Bool) (nowMs : Nat) :
    Only idx pm (pm.startSession idx established peerAddr viaRelay nowMs).1 := by
  refine ⟨fun position apart => ?_⟩
  cases holds : pm.peers[idx]? with
  | none =>
    unfold startSession
    rw [holds]
  | some peer => rw [startSession_peers holds, getElem?_set_ne apart.symm]

theorem only_recordNewEpoch (pm : PeerManager env) (idx : Nat) :
    Only idx pm (pm.recordNewEpoch idx) := by
  unfold recordNewEpoch
  split
  · exact .refl idx pm
  · split
    · exact .refl idx pm
    · exact .refl idx pm
    · exact only_of_modify rfl

structure MovesAt (occasion : Warrant) (idx : Nat) (pm after : PeerManager env) : Prop where
  moves : Moves occasion pm after
  only : Only idx pm after

structure CourseAt (occasion : Warrant) (idx : Nat) (pm after : PeerManager env) : Prop where
  course : Course occasion pm after
  only : Only idx pm after

theorem MovesAt.refl (pm : PeerManager env) : MovesAt occasion idx pm pm := ⟨.refl, .refl idx pm⟩

theorem CourseAt.refl (pm : PeerManager env) : CourseAt occasion idx pm pm :=
  ⟨.refl pm, .refl idx pm⟩

theorem MovesAt.courseAt (moves : MovesAt occasion idx pm after) : CourseAt occasion idx pm after :=
  ⟨moves.moves.course, moves.only⟩

theorem MovesAt.before (moves : MovesAt occasion idx pm between)
    (course : CourseAt occasion idx between after) : CourseAt occasion idx pm after :=
  ⟨moves.moves.before course.course, moves.only.trans course.only⟩

theorem touch_movesAt {f : Peer env → Peer env} (holds : pm.peers[idx]? = some peer)
    (touch : Touch occasion pm peer (f peer)) : MovesAt occasion idx pm (pm.modifyPeer idx f) :=
  ⟨touch_moves holds touch, only_modifyPeer pm idx f⟩

theorem dropSession_courseAt (given : occasion.drop idx) :
    CourseAt occasion idx pm (pm.dropSession idx) :=
  ⟨Moves.course (.single (.drop idx given)),
    ⟨fun _ apart => dropSession_getElem?_of_ne pm apart⟩⟩

/-! ### Handshakes -/

theorem beginHandshake_moves (target : SocketAddr) (viaRelay : Bool) (moment : Moment)
    (idle : ∀ peer, pm.peers[idx]? = some peer → peer.state = .idle) :
    Moves occasion pm (pm.beginHandshake idx target viaRelay moment).1 := by
  unfold beginHandshake
  split
  · exact .refl
  · split
    · exact .refl
    · rename_i hs initPkt _
      split
      · exact .refl
      · exact modifyPeer_moves fun peer holds =>
          .begins ⟨hs, moment.nowMs, moment.nowMs, pm.retryMs idx moment, initPkt, target, viaRelay⟩
            (idle peer holds)

theorem maybeLookup_moves (idx nowMs : Nat) : Moves occasion pm (pm.maybeLookup idx nowMs).1 := by
  unfold maybeLookup
  split
  · split
    · exact modifyPeer_moves fun _ _ => .asks nowMs
    · exact .refl
  · exact .refl

theorem rekeyInitCore_movesAt (idx : Nat) (given : occasion.init init) (initEph : List Byte)
    (directSrc : SocketAddr) (viaRelay : Bool)
    (way : ∀ peer epochs, pm.peers[idx]? = some peer → peer.relay = false →
      peer.state = .established epochs → peer.cachedRespInitEph ≠ some initEph →
      epochs.nextCachedRespFor initEph = none → pm.acceptFreshInit peer init.initTs = true →
      occasion.place peer.endpoint (pm.sessionAddr viaRelay directSrc)) :
    MovesAt occasion idx pm (pm.rekeyInitCore idx init initEph directSrc viaRelay).1 := by
  unfold rekeyInitCore
  split
  · exact .refl pm
  · rename_i peer holds
    split
    · exact .refl pm
    · rename_i other
      split
      · exact .refl pm
      · exact .refl pm
      · rename_i epochs live
        split
        · exact .refl pm
        · rename_i unanswered
          split
          · rename_i fresh
            exact touch_movesAt holds (.installs init initEph _ epochs given live fresh
              fun direct => way peer epochs holds direct live other unanswered fresh)
          · exact .refl pm

theorem readInit_genuine (read : pm.readInit dg moment = some init) : init.established.Genuine := by
  unfold readInit at read
  obtain ⟨⟨established, _⟩, responded, rest⟩ := bind_eq_some_iff.mp read
  obtain ⟨_, _, same⟩ := bind_eq_some_iff.mp rest
  cases same
  unfold HandshakeState.startResponder at responded
  split at responded
  · cases responded
  · split at responded
    · cases responded
    · obtain ⟨_, _, same⟩ := map_eq_some_iff.mp responded
      rw [← (Prod.mk.inj same).1]
      rfl

theorem isEstablished_of_eq {state : PeerState env} {epochs : EpochSet env}
    (live : state = .established epochs) : state.isEstablished = true := by
  rw [live]
  rfl

theorem only_respond (pm : PeerManager env) (idx : Nat) (init : InitRead) (f : Peer env → Peer env)
    (peerAddr : SocketAddr) (viaRelay : Bool) (nowMs : Nat) :
    Only idx pm (((pm.keepInit idx init).modifyPeer idx f).startSession idx init.established
      peerAddr viaRelay nowMs).1 :=
  (only_modifyPeer pm idx _).trans ((only_modifyPeer _ idx f).trans (only_startSession ..))

theorem answerInit_course (genuine : init.established.Genuine) (given : occasion.init init)
    (own : ∀ peer, pm.peers[idx]? = some peer → peer.pubkey = init.remoteStatic)
    (refusing : pm.Refuses init moment.nowSecs idx → occasion.drop idx) (src : SocketAddr)
    (place : ∀ peer, pm.peers[idx]? = some peer → peer.state.isEstablished = true →
      pm.acceptsInit peer init false moment.nowSecs = true → occasion.place peer.endpoint src) :
    CourseAt occasion idx pm (pm.answerInit idx src init moment).1 := by
  unfold answerInit
  split
  · exact .refl pm
  · rename_i peer holds
    dsimp only
    have cold (waiting : peer.state.isEstablished = false)
        (passes : ¬(!pm.certAdmits init.cert init.remoteStatic moment.nowSecs ||
          !pm.acceptFreshInit peer init.initTs) = true) :
        CourseAt occasion idx pm
          (((pm.keepInit idx init).modifyPeer idx fun peer =>
            { peer with endpoint := some src, relay := false }).startSession idx init.established
              src false moment.nowMs).1 := by
      simp only [Bool.or_eq_true, Bool.not_eq_true', not_or, Bool.not_eq_false] at passes
      exact ⟨(Starts.responds idx peer init src false moment holds waiting given genuine passes.1
        passes.2).course, only_respond pm idx init _ ..⟩
    split
    · rename_i epochs live
      have established := isEstablished_of_eq live
      split
      · exact .refl pm
      · split
        · rename_i refused
          refine dropSession_courseAt (refusing ⟨peer, holds, established, ?_, ?_⟩)
          · exact (own peer holds).symm
          · simpa using refused
        · rename_i admits
          have renewed : MovesAt occasion idx pm (pm.renewAdmission idx init.cert) := by
            refine touch_movesAt holds (.renews init.cert moment.nowSecs established
              (Or.inl ⟨init, given, rfl⟩) ?_)
            rw [own peer holds]
            simpa using admits
          split
          · rename_i initEph isEph
            refine renewed.before (rekeyInitCore_movesAt idx given initEph src false ?_).courseAt
            intro found known isFound direct isKnown other unanswered fresh
            cases (getElem?_modifyPeer_of_holds holds _).symm.trans isFound
            cases live.symm.trans isKnown
            refine place peer holds established ?_
            have direct : peer.relay = false := direct
            have other : peer.cachedRespInitEph ≠ some initEph := other
            have fresh : pm.acceptFreshInit peer init.initTs = true := fresh
            simp only [Bool.not_eq_true', Bool.not_eq_false] at admits
            simp [acceptsInit, live, isEph, admits, fresh, other, unanswered, direct]
          · exact renewed.courseAt
    · rename_i live
      split
      · exact .refl pm
      · split
        · exact .refl pm
        · rename_i passes
          exact cold (by rw [live]; rfl) passes
    · rename_i live
      split
      · exact .refl pm
      · split
        · exact .refl pm
        · rename_i passes
          exact cold (by rw [live]; rfl) passes

theorem pushPeer_established {fresh : Peer env} (idle : fresh.state = .idle)
    (holds : (pm.pushPeer fresh).peers[idx]? = some peer) (live : peer.state.isEstablished = true) :
    pm.peers[idx]? = some peer := by
  rcases pm.getElem?_pushPeer fresh idx with kept | ⟨_, added⟩
  · exact kept ▸ holds
  · cases added.symm.trans holds
    rw [idle] at live
    cases live

theorem admitMember_established {pubkey : Key} {endpoints : List SocketAddr}
    (holds : (pm.admitMember pubkey endpoints nowMs).peers[idx]? = some peer)
    (live : peer.state.isEstablished = true) : pm.peers[idx]? = some peer := by
  unfold admitMember at holds
  split at holds
  · exact holds
  · exact pushPeer_established rfl holds live

theorem admitMember_membership (pubkey : Key) (endpoints : List SocketAddr) (nowMs : Nat) :
    (pm.admitMember pubkey endpoints nowMs).membership = pm.membership := by
  unfold admitMember
  split <;> rfl

theorem certAdmits_congr (same : after.membership = pm.membership) :
    after.certAdmits = pm.certAdmits := by
  funext payload pubkey nowSecs
  unfold certAdmits isRoot responderCertOk
  rw [same]

theorem acceptsInit_congr (membership : after.membership = pm.membership)
    (setting : after.setting = pm.setting) : after.acceptsInit = pm.acceptsInit := by
  have floor : after.bootFloorTs = pm.bootFloorTs := congrArg Config.bootFloorTs setting
  have localPub : after.localPub = pm.localPub := congrArg Config.localPub setting
  funext peer init viaRelay nowSecs
  unfold acceptsInit acceptFreshInit
  rw [certAdmits_congr membership, floor, localPub]

theorem admitInitiator_spec (found : pm.admitInitiator init moment = (after, some idx)) :
    Moves occasion pm after ∧ after.membership = pm.membership ∧
      (∀ peer, after.peers[idx]? = some peer → peer.pubkey = init.remoteStatic) ∧
      ∀ peer, after.peers[idx]? = some peer → peer.state.isEstablished = true →
        pm.peers[idx]? = some peer := by
  have isOwn {manager : PeerManager env}
      (position : (manager.position fun peer => peer.pubkey = init.remoteStatic) = some idx)
      (peer : Peer env) (holds : manager.peers[idx]? = some peer) :
      peer.pubkey = init.remoteStatic := by
    obtain ⟨other, there, own⟩ := position_eq_some position
    cases there.symm.trans holds
    simpa using own
  unfold admitInitiator at found
  split at found
  · rename_i position
    cases found
    exact ⟨.refl, rfl, isOwn position, fun _ holds _ => holds⟩
  · split at found
    · obtain ⟨rfl, position⟩ := Prod.mk.inj found
      exact ⟨admitMember_moves .., admitMember_membership .., isOwn position,
        fun _ => admitMember_established⟩
    · cases found

theorem admitInitiator_moves (init : InitRead) (moment : Moment) :
    Moves occasion pm (pm.admitInitiator init moment).1 := by
  unfold admitInitiator
  split
  · exact .refl
  · split
    · exact admitMember_moves ..
    · exact .refl

theorem handleHandshakeInit_course
    {allowed : Option SocketAddr → SocketAddr → Prop} {src : SocketAddr}
    (place : ∀ init ∈ pm.readInit dg moment, ∀ peer ∈ pm.peers, peer.state.isEstablished = true →
      peer.pubkey = init.remoteStatic → pm.acceptsInit peer init false moment.nowSecs = true →
      allowed peer.endpoint src) :
    Course ⟨pm.payloadOccasion dg moment, allowed⟩ pm (pm.handleHandshakeInit src dg moment).1 := by
  unfold handleHandshakeInit
  split
  · exact .refl pm
  · rename_i init read
    split
    · rename_i result
      have admitted : Moves ⟨pm.payloadOccasion dg moment, allowed⟩ pm
          (pm.admitInitiator init moment).1 := admitInitiator_moves init moment
      rw [result] at admitted
      exact admitted.course
    · rename_i idx result
      obtain ⟨admitted, membership, own, had⟩ := admitInitiator_spec result
      refine admitted.before
        (answerInit_course (readInit_genuine read) read own ?_ src fun peer holds live => ?_).course
      · rintro ⟨peer, holds, live, isOwn, refused⟩
        rw [certAdmits_congr membership] at refused
        exact ⟨init, read, peer, had peer holds live, live, isOwn, refused⟩
      · rw [acceptsInit_congr membership admitted.setting_eq]
        exact place init read peer (mem_of_getElem? (had peer holds live)) live (own peer holds)

theorem relayedHandshakeInit_course
    (given : ∀ init, pm.readInit dg moment = some init → occasion.init init)
    (refusing : ∀ init, pm.readInit dg moment = some init →
      pm.Refuses init moment.nowSecs idx → occasion.drop idx) :
    CourseAt occasion idx pm (pm.relayedHandshakeInit idx dg moment).1 := by
  unfold relayedHandshakeInit
  split
  · rename_i init peer read holds
    dsimp only
    have cold (waiting : peer.state.isEstablished = false)
        (passes : ¬(!pm.certAdmits init.cert init.remoteStatic moment.nowSecs ||
          !pm.acceptFreshInit peer init.initTs) = true) :
        CourseAt occasion idx pm
          (((pm.keepInit idx init).modifyPeer idx fun peer =>
            { peer with relay := true }).startSession idx init.established
              pm.serverAddr true moment.nowMs).1 := by
      simp only [Bool.or_eq_true, Bool.not_eq_true', not_or, Bool.not_eq_false] at passes
      exact ⟨(Starts.responds idx peer init pm.serverAddr true moment holds waiting
        (given init read) (readInit_genuine read) passes.1 passes.2).course,
        only_respond pm idx init _ ..⟩
    split
    · exact .refl pm
    · rename_i isOwn
      split
      · rename_i epochs live
        have established := isEstablished_of_eq live
        split
        · exact .refl pm
        · split
          · rename_i refused
            refine dropSession_courseAt (refusing init read ⟨peer, holds, established, ?_, ?_⟩)
            · simpa using isOwn
            · simpa using refused
          · split
            · refine MovesAt.before ?_ (rekeyInitCore_movesAt idx (given init read) _ _ _
                fun found _ isFound direct => ?_).courseAt
              · exact touch_movesAt holds (.detours init (given init read) established)
              · cases (getElem?_modifyPeer_of_holds holds _).symm.trans isFound
                cases direct
            · exact .refl pm
      · rename_i live
        split
        · exact .refl pm
        · split
          · exact .refl pm
          · rename_i passes
            exact cold (by rw [live]; rfl) passes
      · rename_i live
        split
        · exact .refl pm
        · split
          · exact .refl pm
          · rename_i passes
            exact cold (by rw [live]; rfl) passes
  · exact .refl pm

theorem rekeyRespCore_course (given : occasion.resp dg) {viaRelay : Bool} (moment : Moment)
    (way : ∀ peer, pm.peers[idx]? = some peer → peer.relay = viaRelay) :
    CourseAt occasion idx pm (pm.rekeyRespCore idx dg viaRelay moment).1 := by
  unfold rekeyRespCore
  split
  · exact .refl pm
  · rename_i peer holds
    split
    · exact .refl pm
    · exact .refl pm
    · rename_i epochs live
      split
      · exact .refl pm
      · rename_i rekey inFlight
        have taken : MovesAt occasion idx pm (pm.modifyPeer idx fun peer =>
            { peer with state := .established { epochs with rekey := none } }) := by
          exact touch_movesAt holds (.concludes dg epochs given live)
        split
        · exact taken.courseAt
        · rename_i established payload read
          split
          · exact taken.courseAt
          · rename_i admits
            refine ⟨(Starts.rekeys idx peer epochs rekey dg established payload viaRelay moment
              holds live inFlight given read (by simpa using admits) (way peer holds)).course,
              taken.only.trans ?_⟩
            exact (only_modifyPeer _ idx _).trans
              ((only_of_modify rfl).trans (only_recordNewEpoch _ idx))

theorem completeHandshake_course (idx : Nat) (peerAddr : SocketAddr) (given : occasion.resp dg)
    (viaRelay : Bool) (moment : Moment) :
    CourseAt occasion idx pm (pm.completeHandshake idx peerAddr dg viaRelay moment).1 := by
  unfold completeHandshake
  split
  · exact .refl pm
  · rename_i peer holds
    split
    · exact .refl pm
    · exact .refl pm
    · rename_i handshaking live
      have reverted : MovesAt occasion idx pm
          (pm.modifyPeer idx fun peer => { peer with state := .idle }) := by
        exact touch_movesAt holds (.reverts dg handshaking given live)
      split
      · exact reverted.courseAt
      · rename_i established payload read
        split
        · exact reverted.courseAt
        · rename_i admits
          refine ⟨(Starts.completes idx peer handshaking dg established payload peerAddr viaRelay
            moment holds live given read (by simpa using admits)).course, reverted.only.trans ?_⟩
          exact (only_modifyPeer _ idx _).trans
            ((only_modifyPeer _ idx _).trans (only_startSession ..))

/-- The peer at this source has a rekey under way. -/
def rekeyingAt (src : SocketAddr) (peer : Peer env) : Bool :=
  match peer.state with
  | .established epochs => decide (peer.endpoint = some src) && epochs.rekey.isSome && !peer.relay
  | .idle | .handshaking _ => false

def handshakingAt (src : SocketAddr) (peer : Peer env) : Bool :=
  peer.endpoint = some src && peer.state.isHandshaking

theorem handleHandshakeResp_eq (src : SocketAddr) (dg : List Byte) (moment : Moment) :
    pm.handleHandshakeResp src dg moment =
      match pm.position (rekeyingAt src) with
      | some position => pm.rekeyRespCore position dg false moment
      | none =>
        match pm.position (handshakingAt src) with
        | some position => pm.completeHandshake position src dg false moment
        | none => (pm, .none) := rfl

theorem of_rekeyingAt (rekeying : rekeyingAt src peer = true) :
    peer.relay = false ∧ ∃ epochs, peer.state = .established epochs := by
  unfold rekeyingAt at rekeying
  split at rekeying
  · rename_i epochs live
    simp only [Bool.and_eq_true, Bool.not_eq_true'] at rekeying
    exact ⟨rekeying.2, epochs, live⟩
  · cases rekeying
  · cases rekeying

theorem handleHandshakeResp_course (src : SocketAddr) (given : occasion.resp dg) (moment : Moment) :
    Course occasion pm (pm.handleHandshakeResp src dg moment).1 := by
  rw [handleHandshakeResp_eq]
  split
  · rename_i position found
    refine (rekeyRespCore_course given moment fun peer holds => ?_).course
    obtain ⟨rekeying, there, isRekeying⟩ := position_eq_some found
    cases there.symm.trans holds
    exact (of_rekeyingAt isRekeying).1
  · split
    · exact (completeHandshake_course _ _ given ..).course
    · exact .refl pm

theorem relayedHandshakeResp_course (idx : Nat) (given : occasion.resp dg) (moment : Moment) :
    CourseAt occasion idx pm (pm.relayedHandshakeResp idx dg moment).1 := by
  unfold relayedHandshakeResp
  split
  · exact .refl pm
  · rename_i peer holds
    split
    · split
      · rename_i rekeying
        refine rekeyRespCore_course given moment fun found isFound => ?_
        cases holds.symm.trans isFound
        exact (Bool.and_eq_true _ _ ▸ rekeying).2
      · exact .refl pm
    · exact completeHandshake_course _ _ given ..
    · exact .refl pm

/-! ### Datagrams -/

theorem openAt_moves (idx : Nat) (given : occasion.data dg) (nowMs : Nat)
    (confirming : ∀ peer epochs, pm.peers[idx]? = some peer → peer.state = .established epochs →
      epochs.Confirms dg nowMs → occasion.confirm) :
    Moves occasion pm (pm.openAt idx dg nowMs).1 := by
  unfold openAt
  split
  · exact .refl
  · rename_i peer holds
    split
    · exact .refl
    · exact .refl
    · rename_i epochs live
      exact touch_moves holds
        (.opens dg nowMs epochs given live (confirming peer epochs holds live))

theorem openAt_getElem?_of_ne {other : Nat} (apart : idx ≠ other) (dg : List Byte) (nowMs : Nat) :
    (pm.openAt idx dg nowMs).1.peers[other]? = pm.peers[other]? := by
  unfold openAt
  split
  · rfl
  · split
    · rfl
    · rfl
    · simp [getElem?_modifyPeer, apart]

theorem openAt_established (outcome : (pm.openAt idx dg nowMs).2 ≠ .none) (peer : Peer env)
    (holds : (pm.openAt idx dg nowMs).1.peers[idx]? = some peer) :
    peer.state.isEstablished = true := by
  unfold openAt at outcome holds
  split at outcome
  · exact absurd rfl outcome
  · rename_i old had
    split at outcome
    · exact absurd rfl outcome
    · exact absurd rfl outcome
    · rename_i epochs live
      simp only [had, live, getElem?_modifyPeer_self, map_some] at holds
      cases holds
      rfl

theorem offerEach_moves (src : SocketAddr) (given : occasion.data dg) (nowMs : Nat)
    (candidates : List Nat) (distinct : candidates.Nodup)
    (confirming : ∀ idx ∈ candidates, ∀ peer epochs, pm.peers[idx]? = some peer →
      peer.state = .established epochs → epochs.Confirms dg nowMs → occasion.confirm) :
    Moves occasion pm (pm.offerEach src dg nowMs candidates).1 := by
  induction candidates generalizing pm with
  | nil => exact .refl
  | cons idx rest ih =>
    obtain ⟨absent, distinct⟩ := nodup_cons.mp distinct
    have opened : Moves occasion pm (pm.openAt idx dg nowMs).1 :=
      openAt_moves idx given nowMs (confirming idx mem_cons_self)
    unfold offerEach
    dsimp only
    split
    · refine opened.trans (ih distinct fun other member peer epochs holds => ?_)
      have apart : idx ≠ other := fun same => absent (same ▸ member)
      exact confirming other (mem_cons_of_mem _ member) peer epochs
        (openAt_getElem?_of_ne apart dg nowMs ▸ holds)
    · rename_i outcome
      exact opened.trans (modifyPeer_moves fun peer holds =>
        .roams dg src given (openAt_established outcome peer holds))

theorem Confirms.at {epochs : EpochSet env} (holds : pm.peers[idx]? = some peer)
    (live : peer.state = .established epochs) (confirms : epochs.Confirms dg nowMs) :
    pm.Confirms dg nowMs :=
  ⟨peer, mem_of_getElem? holds, epochs, live, confirms⟩

theorem handleDataOrControl_moves (src : SocketAddr) (given : occasion.data dg) (nowMs : Nat)
    (handled : pm.handleDataOrControl src dg nowMs = some result)
    (confirming : pm.Confirms dg nowMs → occasion.confirm) : Moves occasion pm result.1 := by
  obtain ⟨route, _, rfl⟩ := map_eq_some_iff.mp handled
  cases route with
  | some idx =>
    exact offerEach_moves src given nowMs [idx] (nodup_singleton idx)
      fun _ _ _ _ holds live confirms => confirming (.at holds live confirms)
  | none =>
    exact offerEach_moves src given nowMs _ (nodup_range.filter _)
      fun _ _ _ _ holds live confirms => confirming (.at holds live confirms)

theorem answerGossip_moves (given : occasion.aside) (idx : Nat) (dst : SocketAddr)
    (viaRelay : Bool) (dg : List Byte) (nowSecs : Nat) :
    Moves occasion pm (pm.answerGossip idx dst viaRelay dg nowSecs).1 := by
  unfold answerGossip
  split
  · exact .single (.aside _ pm.lastCertSweepMs given)
  · exact .refl

theorem onGossip_moves (given : occasion.aside) (src : SocketAddr) (dg : List Byte)
    (nowSecs : Nat) : Moves occasion pm (pm.onGossip src dg nowSecs).1 := by
  unfold onGossip
  split
  · exact .refl
  · exact answerGossip_moves given ..

theorem relayedGossip_moves (given : occasion.aside) (idx : Nat) (dg : List Byte)
    (nowSecs : Nat) : Moves occasion pm (pm.relayedGossip idx dg nowSecs).1 := by
  unfold relayedGossip
  split
  · exact answerGossip_moves given ..
  · exact .refl

theorem relayedData_moves (idx : Nat) (given : occasion.data dg) (nowMs : Nat)
    (confirming : pm.Confirms dg nowMs → occasion.confirm) :
    Moves occasion pm (pm.relayedData idx dg nowMs).1 := by
  unfold relayedData
  split
  · exact .refl
  · exact openAt_moves idx given nowMs fun _ _ holds live confirms =>
      confirming (.at holds live confirms)

/-- The peer without a session is marked as reached over the relay. -/
def flagRelay (pm : PeerManager env) (idx : Nat) : PeerManager env :=
  pm.modifyPeer idx fun peer => { peer with relay := peer.relay || !peer.state.isEstablished }

theorem flagRelay_getElem? {position : Nat}
    (holds : (pm.flagRelay idx).peers[position]? = some peer) :
    ∃ old, pm.peers[position]? = some old ∧ old.state = peer.state ∧ old.pubkey = peer.pubkey := by
  obtain ⟨old, had, rfl | ⟨_, rfl⟩⟩ := modifyPeer_cases holds
  · exact ⟨peer, had, rfl, rfl⟩
  · exact ⟨old, had, rfl, rfl⟩

theorem flagRelay_moves (idx : Nat) : Moves occasion pm (pm.flagRelay idx) := by
  by_cases live : ∃ peer, pm.peers[idx]? = some peer ∧ peer.state.isEstablished = true
  · obtain ⟨peer, holds, established⟩ := live
    rw [flagRelay, modifyPeer_eq_self holds (by simp [established])]
  · refine modifyPeer_moves fun peer holds => ?_
    have waiting : peer.state.isEstablished = false := by
      simpa using fun established => live ⟨peer, holds, established⟩
    simpa [waiting] using Touch.flags waiting

theorem onRelayed_eq {kind : Byte} (head : payload.head? = some kind)
    (found : pm.byNode srcNode = some idx) (moment : Moment) :
    pm.onRelayed srcNode payload moment =
      if kind = PacketType.handshakeInit.toByte then
        (pm.flagRelay idx).relayedHandshakeInit idx payload moment
      else if kind = PacketType.handshakeResp.toByte then
        (pm.flagRelay idx).relayedHandshakeResp idx payload moment
      else if (pm.flagRelay idx).membership.isSome ∧ kind = PacketType.gossip.toByte then
        (pm.flagRelay idx).relayedGossip idx payload moment.nowSecs
      else (pm.flagRelay idx).relayedData idx payload moment.nowMs := by
  rw [onRelayed, head, found]
  rfl

theorem onRelayed_of_none (unknown : payload.head? = none ∨ pm.byNode srcNode = none)
    (moment : Moment) : pm.onRelayed srcNode payload moment = (pm, .none) := by
  unfold onRelayed
  split
  · rename_i head found
    rw [head, found] at unknown
    rcases unknown with unknown | unknown <;> cases unknown
  · rfl

theorem onRelayed_course {allowed : Option SocketAddr → SocketAddr → Prop} :
    Course ⟨pm.payloadOccasion payload moment, allowed⟩ pm
      (pm.onRelayed srcNode payload moment).1 := by
  cases head : payload.head? with
  | none =>
    rw [onRelayed_of_none (Or.inl head)]
    exact .refl pm
  | some kind =>
  cases found : pm.byNode srcNode with
  | none =>
    rw [onRelayed_of_none (Or.inr found)]
    exact .refl pm
  | some idx =>
    rw [onRelayed_eq head found]
    have flagged : Moves ⟨pm.payloadOccasion payload moment, allowed⟩ pm (pm.flagRelay idx) :=
      flagRelay_moves idx
    refine flagged.before ?_
    by_cases isInit : kind = PacketType.handshakeInit.toByte
    · rw [if_pos isInit]
      refine (relayedHandshakeInit_course (fun init read => read) ?_).course
      rintro init read ⟨peer, holds, live, own, refused⟩
      obtain ⟨old, had, state, pubkey⟩ := flagRelay_getElem? holds
      exact ⟨init, read, old, had, state ▸ live, own.trans pubkey.symm, refused⟩
    · rw [if_neg isInit]
      by_cases response : kind = PacketType.handshakeResp.toByte
      · rw [if_pos response]
        have given : (pm.payloadOccasion payload moment).resp payload :=
          ⟨rfl, head.trans (congrArg some response)⟩
        exact (relayedHandshakeResp_course idx given moment).course
      · rw [if_neg response]
        split
        · exact (relayedGossip_moves trivial ..).course
        · have given : (pm.payloadOccasion payload moment).data payload := by
            refine ⟨rfl, ?_, ?_⟩
            · rw [head]
              exact fun same => isInit (some.inj same)
            · rw [head]
              exact fun same => response (some.inj same)
          refine Moves.course (relayedData_moves idx given moment.nowMs fun confirms => ?_)
          obtain ⟨peer, member, epochs, live, confirms⟩ := confirms
          obtain ⟨position, holds⟩ := mem_iff_getElem?.mp member
          obtain ⟨old, had, state, _⟩ := flagRelay_getElem? holds
          exact .at had (state.trans live) confirms

theorem onPeerCandidate_moves (node : Nat) (addr : SocketAddr) (record : Option env.mesh.Record)
    (moment : Moment) : Moves occasion pm (pm.onPeerCandidate node addr record moment) := by
  unfold onPeerCandidate
  dsimp only
  split
  · exact .refl
  · rename_i idx _
    by_cases live : ∃ peer, pm.peers[idx]? = some peer ∧ peer.state.isEstablished = true
    · obtain ⟨peer, holds, established⟩ := live
      rw [modifyPeer_eq_self holds (by simp [established])]
    · refine modifyPeer_moves fun peer holds => ?_
      have waiting : peer.state.isEstablished = false := by
        simpa using fun established => live ⟨peer, holds, established⟩
      rw [waiting]
      exact .learns _ moment.nowMs waiting

theorem onPunchTo_moves (node : Nat) (addr : SocketAddr) (moment : Moment) :
    Moves occasion pm (pm.onPunchTo node addr moment).1 := by
  unfold onPunchTo
  split
  · exact .refl
  · rename_i idx _
    split
    · exact .refl
    · rename_i peer holds
      dsimp only
      split
      · exact .refl
      · rename_i proceeds
        have learned : Moves occasion pm (pm.modifyPeer idx fun peer =>
            { peer with path := peer.path.onPeerCandidate addr moment.nowMs }) := by
          refine touch_moves holds (.learns [addr] moment.nowMs ?_)
          simp only [Bool.or_eq_true, not_or, Bool.not_eq_true] at proceeds
          exact proceeds.1
        split
        · rename_i isIdle
          refine learned.trans (beginHandshake_moves addr false moment fun found same => ?_)
          rw [getElem?_modifyPeer_self, holds] at same
          cases same
          exact PeerState.isIdle_iff.mp isIdle
        · exact learned

theorem carried_of_elsewhere {src : SocketAddr}
    (elsewhere : ¬(pm.rendezvous.isSome ∧ src = pm.serverAddr)) (dg : List Byte) :
    pm.carried src dg = dg := by
  unfold carried
  split
  · rfl
  · rename_i client connected
    split
    · refine if_neg fun same => elsewhere ⟨by simp [connected], ?_⟩
      rw [serverAddr, connected, same]
    · rfl

/-- How a datagram reaches the session code: directly or over the relay, and with what content. -/
def arrival (pm : PeerManager env) (src : SocketAddr) (dg : List Byte) :
    Option (Option Nat × List Byte) :=
  if dg = [] then none
  else
    match pm.rendezvous with
    | none => some (none, dg)
    | some client =>
      if src = env.rendezvous.serverAddr client then
        match env.rendezvous.parse client dg with
        | .relayed node payload => some (some node, payload)
        | _ => none
      else some (none, dg)

theorem arrival_of_elsewhere {kind : Byte} {rest : List Byte}
    (elsewhere : ¬(pm.rendezvous.isSome ∧ src = pm.serverAddr)) :
    pm.arrival src (kind :: rest) = some (none, kind :: rest) := by
  rw [arrival, if_neg (cons_ne_nil kind rest)]
  split
  · rfl
  · rename_i client connected
    refine if_neg fun same => elsewhere ⟨by simp [connected], ?_⟩
    rw [serverAddr, connected, same]

/-- Where a datagram that is an Init accepted over a live session leads its epoch. -/
def initPlace (pm : PeerManager env) (src : SocketAddr) (dg : List Byte) (moment : Moment)
    (endpoint : Option SocketAddr) (addr : SocketAddr) : Prop :=
  addr = src ∧ pm.arrival src dg = some (none, dg) ∧
    ∃ init ∈ pm.readInit dg moment, ∃ peer ∈ pm.peers, peer.state.isEstablished = true ∧
      peer.pubkey = init.remoteStatic ∧ pm.acceptsInit peer init false moment.nowSecs = true ∧
      peer.endpoint = endpoint

theorem onUdpDispatch_course (src : SocketAddr) (dg : List Byte) (moment : Moment)
    (handled : pm.onUdpDispatch src dg moment = some result) :
    Course ⟨pm.payloadOccasion (pm.carried src dg) moment, pm.initPlace src dg moment⟩ pm
      result.1 := by
  unfold onUdpDispatch at handled
  split at handled
  · cases handled
    exact .refl pm
  · rename_i kind rest
    split at handled
    · rename_i server
      cases handled
      unfold onRdv
      split
      · exact .refl pm
      · rename_i client connected
        have isServer : src = env.rendezvous.serverAddr client := by
          rw [server.2, serverAddr, connected]
        split
        · exact (onPeerCandidate_moves ..).course
        · exact (onPunchTo_moves ..).course
        · rename_i payload parsed
          have payloadCarried : pm.carried src (kind :: rest) = payload := by
            simp only [carried, connected, parsed, isServer, if_true]
          rw [payloadCarried]
          exact onRelayed_course
        · exact .refl pm
        · exact .refl pm
    · rename_i elsewhere
      rw [carried_of_elsewhere elsewhere]
      split at handled
      · cases handled
        refine handleHandshakeInit_course fun init read peer member live own accepts => ?_
        exact ⟨rfl, arrival_of_elsewhere elsewhere, init, read, peer, member, live, own, accepts,
          rfl⟩
      · rename_i notInit
        split at handled
        · rename_i response
          cases handled
          have given : (pm.payloadOccasion (kind :: rest) moment).resp (kind :: rest) :=
            ⟨rfl, congrArg some response⟩
          exact handleHandshakeResp_course src given moment
        · rename_i notResponse
          split at handled
          · cases handled
            exact (onGossip_moves trivial ..).course
          · have given : (pm.payloadOccasion (kind :: rest) moment).data (kind :: rest) := by
              refine ⟨rfl, ?_, ?_⟩
              · exact fun same => notInit (some.inj same)
              · exact fun same => notResponse (some.inj same)
            exact (handleDataOrControl_moves src given moment.nowMs handled id).course

/-! ### Packets -/

theorem advancePath_moves (nowMs : Nat)
    (waiting : ∀ peer, pm.peers[idx]? = some peer → peer.state.isEstablished = false) :
    Moves occasion pm (pm.advancePath idx nowMs).1 := by
  unfold advancePath
  split
  · exact .refl
  · rename_i peer holds
    exact touch_moves holds (.advances nowMs (waiting peer holds))

theorem advancePath_state (nowMs : Nat) {state : PeerState env}
    (all : ∀ peer, pm.peers[idx]? = some peer → peer.state = state) :
    ∀ peer, (pm.advancePath idx nowMs).1.peers[idx]? = some peer → peer.state = state := by
  intro peer holds
  unfold advancePath at holds
  split at holds
  · exact all peer holds
  · rename_i old had
    rw [getElem?_modifyPeer_self, had] at holds
    cases holds
    exact all old had

theorem followPath_moves (action : PathAction) (moment : Moment)
    (idle : ∀ peer, pm.peers[idx]? = some peer → peer.state = .idle) :
    Moves occasion pm (pm.followPath idx action moment).1 := by
  unfold followPath
  split
  · exact beginHandshake_moves _ _ _ idle
  · exact beginHandshake_moves _ _ _ idle
  · exact maybeLookup_moves ..
  · exact .refl
  · exact .refl

theorem drive_moves (moment : Moment)
    (idle : ∀ peer, pm.peers[idx]? = some peer → peer.state = .idle) :
    Moves occasion pm
      ((pm.advancePath idx moment.nowMs).1.followPath idx (pm.advancePath idx moment.nowMs).2
        moment).1 := by
  refine .trans (advancePath_moves moment.nowMs fun peer holds => ?_)
    (followPath_moves _ moment (advancePath_state moment.nowMs idle))
  rw [idle peer holds]
  rfl

theorem sendTo_moves (idx : Nat) {inner : List Byte} (given : occasion.packet inner)
    (moment : Moment) : Moves occasion pm (pm.sendTo idx inner moment).1 := by
  unfold sendTo
  split
  · exact .refl
  · rename_i peer holds
    have buffered (waiting : peer.state.isEstablished = false) :
        Moves occasion pm (pm.modifyPeer idx (·.pushPending inner)) := by
      exact touch_moves holds (.buffers inner given waiting)
    split
    · rename_i epochs live
      exact touch_moves holds (.seals inner moment.nowMs epochs given live)
    · rename_i live
      exact buffered (by rw [live]; rfl)
    · rename_i live
      have idle : ∀ peer, (pm.modifyPeer idx (·.pushPending inner)).peers[idx]? = some peer →
          peer.state = .idle := by
        intro found same
        rw [getElem?_modifyPeer_self, holds] at same
        cases same
        exact live
      refine (buffered (by rw [live]; rfl)).trans ?_
      dsimp only
      split
      · exact drive_moves moment idle
      · exact followPath_moves _ moment idle

theorem onTunDispatch_moves {inner : List Byte} (given : occasion.packet inner)
    (moment : Moment) : Moves occasion pm (pm.onTunDispatch inner moment).1 := by
  unfold onTunDispatch
  split
  · exact sendTo_moves _ given moment
  · split
    · exact .refl
    · dsimp only
      split
      · exact (admitMember_moves ..).trans (sendTo_moves _ given moment)
      · exact admitMember_moves ..

/-! ### The timer -/

theorem tickPath_moves (given : occasion.clock) (target : SocketAddr) (moment : Moment)
    {handshaking : HandshakingState env}
    (live : ∀ peer, pm.peers[idx]? = some peer → peer.state = .handshaking handshaking) :
    Moves occasion pm (pm.tickPath idx target moment).1 := by
  have advanced : Moves occasion pm (pm.advancePath idx moment.nowMs).1 := by
    refine advancePath_moves moment.nowMs fun peer holds => ?_
    rw [live peer holds]
    rfl
  have stays := advancePath_state moment.nowMs live
  have becomesIdle {manager : PeerManager env} {f : Peer env → Peer env}
      (idle : ∀ peer, (f peer).state = .idle) (peer : Peer env)
      (holds : (manager.modifyPeer idx f).peers[idx]? = some peer) : peer.state = .idle := by
    rw [getElem?_modifyPeer_self] at holds
    obtain ⟨old, _, rfl⟩ := map_eq_some_iff.mp holds
    exact idle old
  unfold tickPath
  dsimp only
  split
  · refine .trans (advanced.trans (modifyPeer_moves fun peer holds => ?_))
      (beginHandshake_moves _ _ _ (becomesIdle fun _ => rfl))
    exact .escalates handshaking given (stays peer holds)
  · split
    · refine .trans (advanced.trans (modifyPeer_moves fun peer holds => ?_))
        (beginHandshake_moves _ _ _ (becomesIdle fun _ => rfl))
      exact .retargets handshaking given (stays peer holds)
    · exact advanced
  · exact advanced.trans (maybeLookup_moves ..)
  · exact advanced
  · exact advanced

theorem tickState_moves (given : occasion.clock) (idx : Nat) (moment : Moment) :
    Moves occasion pm (pm.tickState idx moment).1 := by
  unfold tickState
  split
  · exact .refl
  · rename_i peer holds
    split
    · rename_i epochs live
      exact touch_moves holds (.clocks idx moment _ epochs _ given live rfl)
    · rename_i handshaking live
      split
      · exact .refl
      · split
        · exact touch_moves holds (.expires handshaking given live)
        · exact touch_moves holds (.resends handshaking _ given live)
    · exact .refl

theorem tickPeer_moves (given : occasion.clock) (idx : Nat) (moment : Moment) :
    Moves occasion pm (pm.tickPeer idx moment).1 := by
  unfold tickPeer
  split
  · rename_i handshaking state
    have live : ∀ peer, pm.peers[idx]? = some peer → peer.state = .handshaking handshaking := by
      intro peer holds
      rw [holds] at state
      exact some.inj state
    split
    · dsimp only
      split
      · exact tickPath_moves given _ moment live
      · exact (tickPath_moves given _ moment live).trans (tickState_moves given idx moment)
    · exact tickState_moves given idx moment
  · exact tickState_moves given idx moment

theorem drivePathIdle_moves (idx : Nat) (moment : Moment) :
    Moves occasion pm (pm.drivePathIdle idx moment).1 := by
  unfold drivePathIdle
  split
  · rename_i drives
    refine drive_moves moment fun peer holds => ?_
    simp only [holds, any_some, Bool.and_eq_true] at drives
    exact PeerState.isIdle_iff.mp drives.2
  · exact .refl

theorem forEach_moves {act : PeerManager env → Nat → PeerManager env × List EgressDatagram}
    (each : ∀ pm idx, Moves occasion pm (act pm idx).1) (indices : List Nat) :
    Moves occasion pm (pm.forEach act indices).1 := by
  induction indices generalizing pm with
  | nil => exact .refl
  | cons idx rest ih => exact (each pm idx).trans ih

def digested (pm : PeerManager env) (moment : Moment) : PeerManager env :=
  { pm with
    membership := pm.membership.map fun membership =>
      (env.mesh.tickDigest membership moment.nowMs pm.obfOn).1 }

theorem tickGossip_moves (moment : Moment) :
    Moves occasion (pm.digested moment) (pm.tickGossip moment).1 := by
  unfold tickGossip
  split
  · rename_i alone
    have unchanged : pm.digested moment = pm := by
      rw [digested, alone]
      cases pm
      cases alone
      rfl
    rw [unchanged]
  · rename_i membership joined
    have renewed : pm.digested moment =
        { pm with
          membership := some (env.mesh.tickDigest membership moment.nowMs pm.obfOn).1 } := by
      rw [digested, joined]
      rfl
    rw [renewed]
    dsimp only
    split
    · exact .refl
    · split
      · exact .refl
      · rename_i probed
        refine beginHandshake_moves _ _ _ fun peer holds => ?_
        obtain ⟨root, _, found⟩ := exists_of_findSome?_eq_some probed
        obtain ⟨position, isPosition, same⟩ := map_eq_some_iff.mp found
        cases same
        obtain ⟨idle, there, property⟩ := position_eq_some isPosition
        cases there.symm.trans holds
        rw [Bool.and_eq_true] at property
        exact PeerState.isIdle_iff.mp property.2

/-- What the timer left alone before its sweep. -/
structure Unswept (pm after : PeerManager env) : Prop where
  membership : after.membership = pm.membership
  lastCertSweepMs : after.lastCertSweepMs = pm.lastCertSweepMs
  rekeyIntervalMs : after.rekeyIntervalMs = pm.rekeyIntervalMs
  obfOn : after.obfOn = pm.obfOn
  sessions : ∀ (idx : Nat) (peer : Peer env), after.peers[idx]? = some peer →
    peer.state.isEstablished = true → ∃ old, pm.peers[idx]? = some old ∧
      old.state.isEstablished = true ∧ old.pubkey = peer.pubkey ∧
        old.admittedCertNotAfter = peer.admittedCertNotAfter

theorem Unswept.refl (pm : PeerManager env) : pm.Unswept pm :=
  ⟨rfl, rfl, rfl, rfl, fun _ peer holds live => ⟨peer, holds, live, rfl, rfl⟩⟩

theorem Unswept.trans (first : pm.Unswept between) (second : between.Unswept after) :
    pm.Unswept after := by
  refine ⟨second.membership.trans first.membership,
    second.lastCertSweepMs.trans first.lastCertSweepMs,
    second.rekeyIntervalMs.trans first.rekeyIntervalMs, second.obfOn.trans first.obfOn, ?_⟩
  intro idx peer holds live
  obtain ⟨middle, there, alive, pubkey, admitted⟩ := second.sessions idx peer holds live
  obtain ⟨old, had, lived, pubkey', admitted'⟩ := first.sessions idx middle there alive
  exact ⟨old, had, lived, pubkey'.trans pubkey, admitted'.trans admitted⟩

theorem Touch.unswept {touched : Peer env} (touch : Touch .timers pm peer touched)
    (live : touched.state.isEstablished = true) :
    peer.state.isEstablished = true ∧ peer.pubkey = touched.pubkey ∧
      peer.admittedCertNotAfter = touched.admittedCertNotAfter := by
  cases touch with
  | begins | reverts | escalates | retargets | resends | expires => cases live
  | asks | advances | learns | buffers => exact ⟨live, rfl, rfl⟩
  | flags waiting => rw [waiting] at live; cases live
  | detours _ given => exact given.elim
  | renews _ _ _ given =>
    exact given.elim (fun ⟨_, given, _⟩ => given.elim) fun ⟨_, given⟩ => given.elim
  | installs _ _ _ _ given => exact given.elim
  | concludes _ _ given => exact given.elim
  | opens _ _ _ given => exact given.elim
  | roams _ _ given => exact given.elim
  | seals _ _ _ given => exact given.elim
  | clocks _ _ _ _ _ _ had => exact ⟨isEstablished_of_eq had, rfl, rfl⟩

theorem Quiet.unswept (quiet : Quiet .timers pm after) : pm.Unswept after := by
  cases quiet with
  | touch idx f touches =>
    refine ⟨rfl, rfl, rfl, rfl, fun position peer holds live => ?_⟩
    obtain ⟨old, had, rfl | ⟨rfl, rfl⟩⟩ := modifyPeer_cases holds
    · exact ⟨peer, had, live, rfl, rfl⟩
    · exact ⟨old, had, (touches old had).unswept live⟩
  | enters pubkey endpoints nowMs fresh =>
    refine ⟨rfl, rfl, rfl, rfl, fun position peer holds live => ⟨peer, ?_, live, rfl, rfl⟩⟩
    exact pushPeer_established rfl holds live
  | drop idx given => exact given.elim
  | aside _ _ given => exact given.elim

theorem Moves.unswept (moves : Moves .timers pm after) : pm.Unswept after := by
  induction moves with
  | refl => exact .refl pm
  | tail _ quiet ih => exact ih.trans quiet.unswept

theorem mem_positions {property : Peer env → Bool} (member : idx ∈ pm.positions property) :
    ∃ peer, pm.peers[idx]? = some peer ∧ property peer = true := by
  have satisfied := (mem_filter.mp member).2
  cases holds : pm.peers[idx]? with
  | none => simp [holds] at satisfied
  | some peer => exact ⟨peer, rfl, by simpa [holds] using satisfied⟩

theorem foldl_dropSession_moves {stale : List Nat} (given : ∀ idx ∈ stale, occasion.drop idx) :
    Moves occasion pm (stale.foldl dropSession pm) := by
  induction stale generalizing pm with
  | nil => exact .refl
  | cons idx rest ih =>
    refine .head (.drop idx (given idx mem_cons_self)) (ih ?_)
    exact fun other member => given other (mem_cons_of_mem _ member)

theorem sweepCerts_moves (moment : Moment) (aside : occasion.aside)
    (given : ∀ idx peer membership, pm.membership = some membership →
      pm.rekeyIntervalMs ≤ moment.nowMs - pm.lastCertSweepMs → pm.peers[idx]? = some peer →
      peer.state.isEstablished = true →
      env.mesh.memberOrAdmittedCertValid membership peer.pubkey peer.admittedCertNotAfter
        moment.nowSecs = false → occasion.drop idx) : Moves occasion pm (pm.sweepCerts moment) := by
  unfold sweepCerts
  split
  · exact .refl
  · rename_i membership joined
    split
    · exact .refl
    · rename_i due
      refine .head (.aside pm.membership moment.nowMs aside) (foldl_dropSession_moves ?_)
      intro idx member
      obtain ⟨peer, holds, stale⟩ := mem_positions member
      rw [Bool.and_eq_true] at stale
      exact given idx peer membership joined (Nat.le_of_not_lt due) holds stale.1
        (by simpa using stale.2)

theorem tickDispatch_sweeps (pm : PeerManager env) (moment : Moment) :
    ∃ driven late, Moves .timers pm driven ∧ Moves .timers (driven.digested moment) late ∧
      (pm.tickDispatch moment).1 = late.sweepCerts moment :=
  ⟨_, _, (forEach_moves (fun _ idx => tickPeer_moves trivial idx moment) _).trans
    (forEach_moves (fun _ idx => drivePathIdle_moves idx moment) _), tickGossip_moves moment, rfl⟩

theorem tickDispatch_moves (moment : Moment) :
    Moves (pm.tickOccasion moment) pm (pm.tickDispatch moment).1 := by
  obtain ⟨driven, gossiped, early, gossips, swept⟩ := pm.tickDispatch_sweeps moment
  have digested : Moves (pm.tickOccasion moment) driven (driven.digested moment) :=
    .single (.aside _ driven.lastCertSweepMs trivial)
  have le := pm.timers_le_tickOccasion moment
  rw [swept]
  refine (early.mono le).trans (digested.trans ((gossips.mono le).trans ?_))
  refine sweepCerts_moves moment trivial fun idx peer membership joined due holds live stale => ?_
  have late := gossips.unswept
  have unswept := early.unswept
  rw [late.membership] at joined
  obtain ⟨before, had, rfl⟩ := map_eq_some_iff.mp joined
  obtain ⟨middle, there, alive, pubkey, admitted⟩ := late.sessions idx peer holds live
  obtain ⟨old, had', lived, pubkey', admitted'⟩ := unswept.sessions idx middle there alive
  refine ⟨before, old, unswept.membership ▸ had, ?_, had', lived, ?_⟩
  · rw [late.rekeyIntervalMs, late.lastCertSweepMs] at due
    exact unswept.rekeyIntervalMs ▸ unswept.lastCertSweepMs ▸ due
  · rw [pubkey'.trans pubkey, admitted'.trans admitted, ← unswept.obfOn]
    exact stale

/-! ### Events -/

def eventOccasion (pm : PeerManager env) : Event → Occasion
  | .udp src dg moment => pm.payloadOccasion (pm.carried src dg) moment
  | .tick moment => pm.tickOccasion moment
  | .tun inner _ => .send inner
  | .addPeer .. | .admitMember .. | .removePeer _ | .drainNewEpochs => .none

def eventPlace (pm : PeerManager env) : Event → Option SocketAddr → SocketAddr → Prop
  | .udp src dg moment => pm.initPlace src dg moment
  | _ => fun _ _ => False

abbrev eventWarrant (pm : PeerManager env) (event : Event) : Warrant :=
  ⟨pm.eventOccasion event, pm.eventPlace event⟩

/-- An event of a worker: one of its own, or a session of another worker. -/
inductive ShardEvent where
  | own (event : Event)
  | install (peerPk : Key) (established : Established) (endpoint : Option SocketAddr)

def shardStep (pm : PeerManager env) : ShardEvent → PeerManager env
  | .own event => pm.step event
  | .install peerPk established endpoint => pm.installEstablishedSession peerPk established endpoint

/-- What an event of a worker amounts to. -/
inductive Stepped (pm : PeerManager env) : ShardEvent → PeerManager env → Prop where
  | course (event : Event) (after : PeerManager env)
      (kept : ∀ pubkey, event ≠ .removePeer pubkey)
      (course : Course (pm.eventWarrant event) pm after) : Stepped pm (.own event) after
  | added (pubkey : Key) (endpoint : Option SocketAddr) :
    Stepped pm (.own (.addPeer pubkey endpoint))
      (pm.pushPeer (Peer.new pubkey endpoint false (pm.startPath endpoint.toList 0)))
  | removed (pubkey : Key) (idx : Nat) (after : PeerManager env)
      (found : pm.byNode (env.nodeId pubkey) = some idx)
      (setting : after.setting = pm.setting)
      (peers : after.peers = (pm.dropSession idx).peers.eraseIdx idx) :
    Stepped pm (.own (.removePeer pubkey)) after
  | drained : Stepped pm (.own .drainNewEpochs) { pm with newEpochs := [] }
  | installed (peerPk : Key) (established : Established) (endpoint : Option SocketAddr)
      (admitted after : PeerManager env) (idx : Nat) (addr : SocketAddr)
      (moves : Moves .none pm admitted) (setting : after.setting = pm.setting)
      (peers : after.peers = admitted.peers.modify idx fun peer =>
        { peer with
          endpoint := endpoint.or peer.endpoint
          path := (endpoint.toList.foldl PathState.onDirectAddr peer.path).committed
          state := .established
            ((EpochSet.new (if pm.numShards > 1
              then (pm.dataPlane established addr).setShard pm.shardId pm.numShards
              else pm.dataPlane established addr) 0).setFecRepairRatio pm.redundancyPct) })
      (seat : (pm.position fun peer => peer.pubkey = peerPk) = some idx ∧ admitted = pm ∨
        (pm.position fun peer => peer.pubkey = peerPk) = none)
      (address : ∀ peer, admitted.peers[idx]? = some peer →
        addr = (endpoint.or peer.endpoint).getD ⟨0, 0⟩) :
    Stepped pm (.install peerPk established endpoint) after
  | unknown (peerPk : Key) (established : Established) (endpoint : Option SocketAddr)
      (after : PeerManager env) (moves : Moves .none pm after) :
    Stepped pm (.install peerPk established endpoint) after
  | ignored (event : ShardEvent)
      (unknown : ∀ pubkey, event = .own (.removePeer pubkey) →
        pm.byNode (env.nodeId pubkey) = none) :
    Stepped pm event pm

theorem removePeer_stepped (pubkey : Key) :
    pm.Stepped (.own (.removePeer pubkey)) (pm.step (.removePeer pubkey)) := by
  change pm.Stepped _ ((pm.removePeer pubkey).toOption.getD pm)
  unfold removePeer
  split
  · rename_i unknown
    refine .ignored _ fun key same => ?_
    cases same
    exact unknown
  · rename_i idx found
    exact .removed pubkey idx _ found (pm.dropSession_setting idx) rfl

theorem installEstablishedSession_stepped (peerPk : Key) (established : Established)
    (endpoint : Option SocketAddr) :
    pm.Stepped (.install peerPk established endpoint)
      (pm.installEstablishedSession peerPk established endpoint) := by
  unfold installEstablishedSession
  extract_lets admitted
  have moves : Moves .none pm admitted := by
    unfold admitted
    split
    · exact .refl
    · exact admitMember_moves ..
  have same : admitted.setting = pm.setting := moves.setting_eq
  split
  · exact .unknown peerPk established endpoint admitted moves
  · rename_i idx found
    refine .installed peerPk established endpoint admitted _ idx
      ((endpoint.or ((admitted.peers[idx]?).bind (·.endpoint))).getD ⟨0, 0⟩) moves same ?_ ?_
      fun peer holds => by rw [holds, bind_some]
    rotate_left
    · unfold admitted at found ⊢
      split at found
      · rename_i known
        exact Or.inl ⟨found, if_pos known⟩
      · rename_i unknown
        exact Or.inr (by simpa [position] using unknown)
    have l2 : admitted.l2 = pm.l2 := congrArg Config.l2 same
    have obfOn : admitted.obfOn = pm.obfOn := congrArg Config.obfOn same
    have symbolSize : admitted.dataSymbolSize = pm.dataSymbolSize :=
      congrArg Config.dataSymbolSize same
    have shardId : admitted.shardId = pm.shardId := congrArg Config.shardId same
    have numShards : admitted.numShards = pm.numShards := congrArg Config.numShards same
    have redundancy : admitted.redundancyPct = pm.redundancyPct :=
      congrArg Config.redundancyPct same
    simp only [modifyPeer, dataPlane, l2, obfOn, symbolSize, shardId, numShards, redundancy]

theorem Course.setting_eq (course : Course occasion pm after) : after.setting = pm.setting := by
  obtain ⟨quiet, moves, rfl | starts⟩ := course
  · exact moves.setting_eq
  · exact starts.setting_eq.trans moves.setting_eq

theorem Stepped.setting_eq {event : ShardEvent} (stepped : pm.Stepped event after) :
    after.setting = pm.setting := by
  cases stepped with
  | course _ _ _ course => exact course.setting_eq
  | removed _ _ _ _ setting => exact setting
  | installed _ _ _ _ _ _ _ _ setting => exact setting
  | unknown _ _ _ _ moves => exact moves.setting_eq
  | added | drained | ignored => rfl

theorem shardStep_stepped (pm : PeerManager env) (event : ShardEvent) :
    pm.Stepped event (pm.shardStep event) := by
  cases event with
  | install peerPk established endpoint => exact installEstablishedSession_stepped ..
  | own event =>
    cases event with
    | udp src dg moment =>
      change pm.Stepped _ (((pm.onUdpDispatch src dg moment).map Prod.fst).getD pm)
      cases handled : pm.onUdpDispatch src dg moment with
      | none => exact .ignored _ nofun
      | some result => exact .course _ _ nofun (onUdpDispatch_course src dg moment handled)
    | tun inner moment =>
      have given : (Occasion.send inner).packet inner := rfl
      exact .course _ _ nofun (onTunDispatch_moves given moment).course
    | tick moment => exact .course _ _ nofun (tickDispatch_moves moment).course
    | admitMember pubkey endpoints nowMs =>
      exact .course _ _ nofun (admitMember_moves pubkey endpoints nowMs).course
    | addPeer pubkey endpoint =>
      change pm.Stepped _ ((pm.addPeer pubkey endpoint).toOption.getD pm)
      unfold addPeer
      split
      · exact .ignored _ nofun
      · exact .added pubkey endpoint
    | removePeer pubkey => exact removePeer_stepped pubkey
    | drainNewEpochs => exact .drained

end Yip.PeerManager
