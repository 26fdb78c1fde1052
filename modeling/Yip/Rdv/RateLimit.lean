/-
This file is about the rate limit of the rendezvous server: windows of one second that begin with
the first message after the last one, or afresh when a sweep forgot them.
-/

import Yip.Rdv.AntiReplay

namespace Yip.Rdv

open Members RendezvousServer List

/-! ### Windows -/

/-- How many of these times lie in the window that begins here. -/
def within (start : Nat) (times : List Nat) : Nat :=
  (times.filter fun time => start ≤ time ∧ time ≤ start + rateWindowMs).length

/-- The messages that passed at these times, when the window they passed in last began at `start`
and has passed `count` of them. -/
structure Windows (times : List Nat) (start count : Nat) : Prop where
  few : count ≤ maxMsgsPerWindow
  last : (times.filter (start ≤ ·)).length = count
  before : ∀ time ∈ times, time < start + rateWindowMs
  bound : ∀ first, within first times ≤ 2 * maxMsgsPerWindow
  recent : ∀ first, start ≤ first + rateWindowMs → within first times ≤ maxMsgsPerWindow + count

namespace Windows

variable {times : List Nat} {start count nowMs : Nat}

theorem nil (start : Nat) : Windows [] start 0 :=
  ⟨Nat.zero_le _, rfl, nofun, fun _ => Nat.zero_le _, fun _ _ => Nat.zero_le _⟩

/-- An interval that reaches the new window holds no message from before the old one. -/
theorem begin (windows : Windows times start count) (past : start + rateWindowMs ≤ nowMs) :
    Windows times nowMs 0 := by
  refine ⟨Nat.zero_le _, ?_, fun time member => ?_, windows.bound, fun first reaches => ?_⟩
  · rw [length_eq_zero_iff, filter_eq_nil_iff]
    intro time member
    have early := windows.before time member
    simp only [decide_eq_true_eq]
    omega
  · exact ((windows.before time member).trans_le past).trans_le (Nat.le_add_right _ _)
  · have inside : within first times ≤ (times.filter (start ≤ ·)).length := by
      refine (monotone_filter_right times fun time held => ?_).length_le
      simp only [decide_eq_true_eq] at held ⊢
      omega
    exact (inside.trans windows.last.le).trans windows.few

theorem take (windows : Windows times start count) (begun : start ≤ nowMs)
    (open' : nowMs < start + rateWindowMs) (room : count < maxMsgsPerWindow) :
    Windows (nowMs :: times) start (count + 1) := by
  have more (first : Nat) : within first (nowMs :: times) ≤ within first times + 1 := by
    unfold within
    rw [filter_cons]
    split
    · exact le_rfl
    · exact Nat.le_add_right _ _
  have recent (first : Nat) (reaches : start ≤ first + rateWindowMs) :
      within first (nowMs :: times) ≤ maxMsgsPerWindow + (count + 1) :=
    (more first).trans (Nat.add_le_add_right (windows.recent first reaches) 1)
  refine ⟨room, ?_, fun time member => ?_, fun first => ?_, recent⟩
  · rw [filter_cons_of_pos (by simpa using begun), length_cons, windows.last]
  · rcases mem_cons.mp member with rfl | old
    · exact open'
    · exact windows.before time old
  · by_cases reaches : start ≤ first + rateWindowMs
    · have bounded := recent first reaches
      omega
    · have outside : within first (nowMs :: times) = within first times := by
        unfold within
        rw [filter_cons_of_neg]
        simp only [decide_eq_true_eq]
        omega
      exact outside ▸ windows.bound first

end Windows

/-! ### The limiter -/

namespace RendezvousServer

variable {server : RendezvousServer} {src : Members.SocketAddr} {nowMs : Nat}

/-- The source's count in the window of the moment. -/
def currentRate (server : RendezvousServer) (src : Members.SocketAddr) (nowMs : Nat) : Rate :=
  let rate := (server.rates.lookup src).getD ⟨nowMs, 0⟩
  if nowMs - rate.windowStartMs ≥ rateWindowMs then ⟨nowMs, 0⟩ else rate

/-- The source may send another message in this window. -/
def Room (server : RendezvousServer) (src : Members.SocketAddr) (nowMs : Nat) : Prop :=
  (server.currentRate src nowMs).count < maxMsgsPerWindow

instance (server : RendezvousServer) (src : Members.SocketAddr) (nowMs : Nat) :
    Decidable (server.Room src nowMs) := inferInstanceAs (Decidable (_ < _))

theorem rateOk_cases (server : RendezvousServer) (src : Members.SocketAddr) (nowMs : Nat) :
    ((maxRateEntries ≤ size server.rates ∧ src ∉ server.rates) ∧
      server.rateOk src nowMs = (server, false)) ∨
    ((size server.rates < maxRateEntries ∨ src ∈ server.rates) ∧
      server.rateOk src nowMs =
        ({ server with
            rates := server.rates.insert src
              ⟨(server.currentRate src nowMs).windowStartMs,
                (server.currentRate src nowMs).count + if server.Room src nowMs then 1 else 0⟩ },
          decide (server.Room src nowMs))) := by
  unfold rateOk
  by_cases full : size server.rates ≥ maxRateEntries ∧ src ∉ server.rates
  · exact Or.inl ⟨full, if_pos full⟩
  · refine Or.inr ⟨?_, ?_⟩
    · by_cases tracked : src ∈ server.rates
      · exact Or.inr tracked
      · exact Or.inl (not_le.mp fun large => full ⟨large, tracked⟩)
    · rw [if_neg full]
      show (if (server.currentRate src nowMs).count ≥ maxMsgsPerWindow then _ else _) = _
      by_cases room : server.Room src nowMs
      · rw [if_neg (Nat.not_le_of_lt room), if_pos room, decide_eq_true room]
        rfl
      · rw [if_pos (Nat.le_of_not_lt room), if_neg room, decide_eq_false room]
        rfl

theorem size_insert_le {Key Value : Type} [DecidableEq Key] {table : AList fun _ : Key => Value}
    {key : Key} {value : Value} {cap : Nat} (bounded : size table ≤ cap)
    (room : size table < cap ∨ key ∈ table) : size (table.insert key value) ≤ cap := by
  by_cases held : key ∈ table
  · obtain ⟨old, isOld⟩ := Option.isSome_iff_exists.mp (AList.lookup_isSome.mpr held)
    exact (Assoc.length_insert_held isOld).le.trans bounded
  · exact (Assoc.length_insert_absent (AList.lookup_eq_none.mpr held)).le.trans
      (room.resolve_right held)

/-- Both tables are within their caps. -/
structure Bounded (server : RendezvousServer) : Prop where
  regs : size server.regs ≤ maxRegistrations
  rates : size server.rates ≤ maxRateEntries

theorem Bounded.rateOk (bounded : server.Bounded) : (server.rateOk src nowMs).1.Bounded := by
  rcases server.rateOk_cases src nowMs with ⟨-, refused⟩ | ⟨room, answered⟩
  · rw [refused]
    exact bounded
  · rw [answered]
    exact ⟨bounded.regs, size_insert_le bounded.rates room⟩

section Steps

variable {suite : Suite} {deobfuscate : Bytes 16 → List Byte → Option (Byte × List Byte)}
  {obfKey : Bytes 16}

theorem Bounded.answer (bounded : server.Bounded) (message : Message) (nowSecs : Nat) :
    (server.answer suite src message nowMs nowSecs).1.Bounded ∧
      (server.answer suite src message nowMs nowSecs).1.rates = server.rates := by
  rcases server.answer_cases suite src message nowMs nowSecs with
    ⟨_, _, _, -, fresh, entered⟩ | ⟨-, _, unchanged⟩
  · rw [entered]
    exact ⟨⟨size_insert_le bounded.regs fresh.2, bounded.rates⟩, rfl⟩
  · rw [unchanged]
    exact ⟨⟨bounded.regs, bounded.rates⟩, rfl⟩

theorem classifyFirstFrameAt_tables (buf : List Byte) (nowSecs : Nat) :
    (server.classifyFirstFrameAt suite deobfuscate obfKey buf nowMs nowSecs).1.regs = server.regs ∧
      (server.classifyFirstFrameAt suite deobfuscate obfKey buf nowMs nowSecs).1.rates =
        server.rates := by
  unfold classifyFirstFrameAt
  split
  · rw [classifyMessage_fst]
    split
    · rename_i node counter _
      rcases server.registerIfFreshTls_cases node counter nowMs with ⟨-, taken⟩ | refused
      · rw [taken]
        exact ⟨rfl, rfl⟩
      · rw [refused]
        exact ⟨rfl, rfl⟩
    · exact ⟨rfl, rfl⟩
  · exact ⟨rfl, rfl⟩

theorem Bounded.step (bounded : server.Bounded) (event : Event) :
    (server.step suite deobfuscate obfKey event).Bounded ∧
      (server.step suite deobfuscate obfKey event).rates =
        match event with
        | .datagram src _ nowMs _ => (server.rateOk src nowMs).1.rates
        | .connection _ _ _ => server.rates
        | .sweep nowMs => (server.sweep nowMs).rates := by
  cases event with
  | datagram src message nowMs nowSecs =>
    show (server.handle suite src message nowMs nowSecs).1.Bounded ∧
      (server.handle suite src message nowMs nowSecs).1.rates = _
    unfold handle
    dsimp only
    split
    · exact bounded.rateOk.answer message nowSecs
    · exact ⟨bounded.rateOk, rfl⟩
  | connection buf nowMs nowSecs =>
    obtain ⟨regs, rates⟩ := classifyFirstFrameAt_tables buf nowSecs
    exact ⟨⟨(congrArg size regs).le.trans bounded.regs,
      (congrArg size rates).le.trans bounded.rates⟩, rates⟩
  | sweep nowMs =>
    exact ⟨⟨(length_filter_le ..).trans bounded.regs, (length_filter_le ..).trans bounded.rates⟩,
      rfl⟩

end Steps

end RendezvousServer

/-! ### One source -/

/-- The times of a source's messages, the newest first, each with whether it was processed. -/
structure Meter where
  server : RendezvousServer
  nowMs : Nat
  log : List (Nat × Bool)

namespace Meter

/-- When the source's messages arrived. -/
def sent (meter : Meter) : List Nat := meter.log.map Prod.fst

/-- When a message of the source was processed. -/
def processed (meter : Meter) : List Nat := (meter.log.filter Prod.snd).map Prod.fst

def start (rootsCfg : Option (List (Bytes 32) × Bytes 16)) : Meter :=
  ⟨⟨∅, ∅, ∅, 0, rootsCfg⟩, 0, []⟩

section Steps

variable (suite : Suite) (deobfuscate : Bytes 16 → List Byte → Option (Byte × List Byte))
  (obfKey : Bytes 16) (src : Members.SocketAddr)

def step (meter : Meter) (event : Event) : Meter where
  server := meter.server.step suite deobfuscate obfKey event
  nowMs := event.nowMs
  log := match event with
    | .datagram source _ nowMs _ =>
      if source = src then (nowMs, (meter.server.rateOk src nowMs).2) :: meter.log else meter.log
    | .connection _ _ _ | .sweep _ => meter.log

/-- The entry of the source counts the messages processed in its window. -/
structure Tracks (meter : Meter) (rate : Rate) : Prop where
  windows : Windows meter.processed rate.windowStartMs rate.count
  begun : rate.windowStartMs ≤ meter.nowMs
  entry : meter.server.rates.lookup src = some rate ∨ meter.server.rates.lookup src = none ∧
    (meter.processed = [] ∨ rate.windowStartMs + rateWindowMs ≤ meter.nowMs)

/-- What holds of the server throughout a run. -/
structure Metered (meter : Meter) : Prop where
  bounded : meter.server.Bounded
  tracks : ∃ rate, meter.Tracks src rate

variable {suite deobfuscate obfKey src} {meter : Meter} {rate : Rate} {nowMs : Nat}

/-- Whatever the table still holds, the window that counts now is the one of the messages that
passed. -/
theorem Tracks.current (tracks : meter.Tracks src rate) (later : meter.nowMs ≤ nowMs) :
    Windows meter.processed (meter.server.currentRate src nowMs).windowStartMs
      (meter.server.currentRate src nowMs).count ∧
    (meter.server.currentRate src nowMs).windowStartMs ≤ nowMs ∧
    nowMs < (meter.server.currentRate src nowMs).windowStartMs + rateWindowMs := by
  unfold currentRate
  rcases tracks.entry with held | ⟨forgotten, past⟩
  · rw [held, Option.getD_some]
    dsimp only
    split
    · rename_i past
      exact ⟨tracks.windows.begin ((Nat.add_le_of_le_sub' (tracks.begun.trans later) past)), le_rfl,
        Nat.lt_add_of_pos_right (by decide)⟩
    · rename_i inside
      exact ⟨tracks.windows, tracks.begun.trans later, by omega⟩
  · rw [forgotten, Option.getD_none]
    dsimp only
    rw [Nat.sub_self, if_neg (by decide)]
    refine ⟨?_, le_rfl, Nat.lt_add_of_pos_right (by decide)⟩
    rcases past with nothing | past
    · rw [nothing]
      exact Windows.nil nowMs
    · exact tracks.windows.begin (past.trans later)

theorem Tracks.later (tracks : meter.Tracks src rate) {next : Meter}
    (kept : next.server.rates.lookup src = meter.server.rates.lookup src)
    (same : next.processed = meter.processed) (later : meter.nowMs ≤ next.nowMs) :
    next.Tracks src rate := by
  refine ⟨same ▸ tracks.windows, tracks.begun.trans later, ?_⟩
  rw [kept, same]
  exact tracks.entry.imp_right fun gone => ⟨gone.1, gone.2.imp_right fun past => past.trans later⟩

/-- A message of the source is counted in the window that counts now, or finds the table full. -/
theorem Tracks.message (tracks : meter.Tracks src rate) (later : meter.nowMs ≤ nowMs)
    {server : RendezvousServer} (rates : server.rates = (meter.server.rateOk src nowMs).1.rates) :
    ∃ rate, Tracks src
      ⟨server, nowMs, (nowMs, (meter.server.rateOk src nowMs).2) :: meter.log⟩ rate := by
  obtain ⟨windows, begun, inside⟩ := tracks.current later
  rcases meter.server.rateOk_cases src nowMs with ⟨-, refused⟩ | ⟨-, counted⟩
  · rw [refused] at rates ⊢
    exact ⟨rate, tracks.later (congrArg (AList.lookup src) rates) rfl later⟩
  · rw [counted] at rates ⊢
    have entry := (congrArg (AList.lookup src) rates).trans (AList.lookup_insert _)
    refine ⟨_, ?_, ?_, Or.inl entry⟩
    swap
    · exact begun
    by_cases room : meter.server.Room src nowMs
    · rw [decide_eq_true room, if_pos room]
      exact windows.take begun inside room
    · rw [decide_eq_false room, if_neg room]
      exact windows

theorem Metered.step (metered : meter.Metered src) {event : Event}
    (later : meter.nowMs ≤ event.nowMs) :
    (meter.step suite deobfuscate obfKey src event).Metered src := by
  obtain ⟨rate, tracks⟩ := metered.tracks
  obtain ⟨bounded, rates⟩ :=
    @Bounded.step meter.server suite deobfuscate obfKey metered.bounded event
  refine ⟨bounded, ?_⟩
  unfold Meter.step
  cases event with
  | datagram source message nowMs nowSecs =>
    dsimp only
    by_cases own : source = src
    · subst own
      rw [if_pos rfl]
      exact tracks.message later rates
    · rw [if_neg own]
      refine ⟨rate, tracks.later ((congrArg (AList.lookup src) rates).trans ?_) rfl later⟩
      rcases meter.server.rateOk_cases source nowMs with ⟨-, refused⟩ | ⟨-, counted⟩
      · exact congrArg (fun answer => answer.1.rates.lookup src) refused
      · refine (congrArg (fun answer => answer.1.rates.lookup src) counted).trans ?_
        exact AList.lookup_insert_ne (Ne.symm own)
  | connection buf nowMs nowSecs =>
    exact ⟨rate, tracks.later (congrArg (AList.lookup src) rates) rfl later⟩
  | sweep nowMs =>
    have begun : rate.windowStartMs ≤ nowMs := tracks.begun.trans later
    refine ⟨rate, tracks.windows, begun, ?_⟩
    show (meter.server.sweep nowMs).rates.lookup src = some rate ∨
      (meter.server.sweep nowMs).rates.lookup src = none ∧ _
    rw [show (meter.server.sweep nowMs).rates.lookup src = _ from Assoc.lookup_retain _ _ src]
    rcases tracks.entry with held | ⟨gone, past⟩
    · rw [held, Option.filter_some]
      split
      · exact Or.inl rfl
      · rename_i old
        simp only [decide_eq_true_eq] at old
        exact Or.inr ⟨rfl, Or.inr (show _ ≤ nowMs by omega)⟩
    · rw [gone]
      exact Or.inr ⟨rfl, past.imp_right fun early => early.trans later⟩

/-- At most 128 messages of a source are processed within a second, a source whose message is
refused has sent 65 in the last second, or finds the table full, and the tables stay bounded. -/
theorem messages_rate_limited (suite : Suite)
    (deobfuscate : Bytes 16 → List Byte → Option (Byte × List Byte)) (obfKey : Bytes 16)
    (rootsCfg : Option (List (Bytes 32) × Bytes 16)) (src : Members.SocketAddr)
    (events : List Event)
    (ordered : Machine.Admissible (step suite deobfuscate obfKey src)
      (fun meter event => meter.nowMs ≤ event.nowMs) (start rootsCfg) events) :
    let reached := Machine.run (step suite deobfuscate obfKey src) (start rootsCfg) events
    (∀ first, (reached.processed.filter fun time =>
      first ≤ time ∧ time ≤ first + 1000).length ≤ 128) ∧
    (∀ nowMs, reached.nowMs ≤ nowMs → (reached.server.rateOk src nowMs).2 = false →
      (maxRateEntries ≤ size reached.server.rates ∧ src ∉ reached.server.rates) ∨
      65 ≤ ((nowMs :: reached.sent).filter fun time => nowMs < time + 1000).length) ∧
    size reached.server.regs ≤ maxRegistrations ∧ size reached.server.rates ≤ maxRateEntries := by
  intro reached
  have metered : reached.Metered src :=
    Machine.run_invariant _ _ (Metered src) (fun _ _ metered later => metered.step later) _ _
      ⟨⟨Nat.zero_le _, Nat.zero_le _⟩, ⟨0, 0⟩, Windows.nil 0, le_rfl, Or.inr ⟨rfl, Or.inl rfl⟩⟩
      ordered
  obtain ⟨rate, tracks⟩ := metered.tracks
  refine ⟨tracks.windows.bound, fun nowMs later refused => ?_, metered.bounded.regs,
    metered.bounded.rates⟩
  rcases reached.server.rateOk_cases src nowMs with ⟨full, -⟩ | ⟨-, counted⟩
  · exact Or.inl full
  · right
    rw [counted] at refused
    obtain ⟨windows, -, inside⟩ := tracks.current later
    have many : 64 ≤ _ := Nat.le_of_not_lt (of_decide_eq_false refused)
    rw [← windows.last] at many
    rw [filter_cons_of_pos (by simp), length_cons]
    refine Nat.succ_le_succ (many.trans ?_)
    have sublist : reached.processed.Sublist reached.sent := filter_sublist.map _
    refine ((sublist.filter _).trans (monotone_filter_right _ fun time held => ?_)).length_le
    simp only [decide_eq_true_eq] at held ⊢
    exact inside.trans_le (Nat.add_le_add_right held _)

end Steps

open Transparent Audit in
/-- Two messages of one source and one of another, around a sweep that forgets the first window. -/
theorem lookups_rate_limited :
    let events : List Event := [.datagram (source 1) (.lookup signed.nodeId) 5 0,
      .datagram (source 2) (.lookup signed.nodeId) 900 0, .sweep 1100,
      .datagram (source 1) (.lookup signed.nodeId) 1200 1]
    let reached := Machine.run (step suite plain (all 16 0) (source 1)) (start none) events
    reached.processed = [1200, 5] ∧ size reached.server.rates ≤ maxRateEntries := by
  intro events reached
  refine ⟨by decide +kernel, ?_⟩
  exact (messages_rate_limited suite plain (all 16 0) none (source 1) events
    (by decide +kernel)).2.2.2

end Meter

end Yip.Rdv
