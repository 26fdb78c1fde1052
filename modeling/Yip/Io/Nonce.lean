/-
This file models the chunked nonce dispenser (`nonce.rs`): workers claim chunks of the 64-bit
numbers from one shared counter, which wraps, and hand out the numbers of a chunk one by one.
-/

import Yip.Crypto.Session

namespace Yip.Io

open Crypto List

/-- The counter the workers share. -/
structure ChunkedNonceDispenser where
  nextNonce : Nat
  chunkSize : Nat

structure LocalNonceWindow where
  current : Nat
  limit : Nat

namespace ChunkedNonceDispenser

def new (chunkSize : BitVec 64) : ChunkedNonceDispenser := ⟨0, max chunkSize.toNat 1⟩

def claimChunk (dispenser : ChunkedNonceDispenser) : ChunkedNonceDispenser × LocalNonceWindow :=
  ({ dispenser with nextNonce := (dispenser.nextNonce + dispenser.chunkSize) % u64Limit },
    ⟨dispenser.nextNonce, saturatingAdd dispenser.nextNonce dispenser.chunkSize⟩)

end ChunkedNonceDispenser

namespace LocalNonceWindow

def empty : LocalNonceWindow := ⟨0, 0⟩

def nextNonce (window : LocalNonceWindow) (dispenser : ChunkedNonceDispenser) :
    LocalNonceWindow × ChunkedNonceDispenser × Option Nat :=
  if window.current < window.limit then
    ({ window with current := window.current + 1 }, dispenser, some window.current)
  else
    let (dispenser, window) := dispenser.claimChunk
    if window.current < window.limit then
      ({ window with current := window.current + 1 }, dispenser, some window.current)
    else (window, dispenser, none)

end LocalNonceWindow

/-! ### Workers -/

/-- The workers of one dispenser, with the nonces they were given so far and the number of chunks
they claimed. A call touches the shared counter at most once, so calls that overlap in time come
one after the other. -/
structure Workers where
  dispenser : ChunkedNonceDispenser
  windows : Nat → LocalNonceWindow
  handed : List Nat
  claims : Nat

namespace Workers

def new (chunkSize : BitVec 64) : Workers := ⟨.new chunkSize, fun _ => .empty, [], 0⟩

def answer (workers : Workers) (worker : Nat) : Option Nat :=
  ((workers.windows worker).nextNonce workers.dispenser).2.2

abbrev Spent (workers : Workers) (worker : Nat) : Prop :=
  (workers.windows worker).limit ≤ (workers.windows worker).current

def call (workers : Workers) (worker : Nat) : Workers :=
  let (window, dispenser, nonce) := (workers.windows worker).nextNonce workers.dispenser
  { dispenser := dispenser
    windows := Function.update workers.windows worker window
    handed := workers.handed ++ nonce.toList
    claims := workers.claims + if workers.Spent worker then 1 else 0 }

/-- The workers after some calls, each by the worker of that number. -/
def after (chunkSize : BitVec 64) (calls : List Nat) : Workers :=
  Machine.run call (new chunkSize) calls

/-- The chunks claimed so far hold all 64-bit numbers. -/
def UsedUp (workers : Workers) : Prop := u64Limit ≤ workers.claims * workers.dispenser.chunkSize

structure Sound (workers : Workers) : Prop where
  once : workers.handed.Nodup
  ends : workers.UsedUp → ∀ worker, workers.Spent worker → workers.answer worker = none

variable {workers : Workers} {worker : Nat}

theorem call_of_left (left : ¬workers.Spent worker) :
    workers.call worker =
      { workers with
        windows := Function.update workers.windows worker
          { workers.windows worker with current := (workers.windows worker).current + 1 }
        handed := workers.handed ++ [(workers.windows worker).current] } := by
  unfold call LocalNonceWindow.nextNonce
  rw [if_pos (Nat.lt_of_not_le left), if_neg left]
  rfl

theorem call_of_spent (spent : workers.Spent worker) :
    ∃ window, workers.call worker =
      { dispenser := workers.dispenser.claimChunk.1
        windows := Function.update workers.windows worker window
        handed := workers.handed ++ (workers.answer worker).toList
        claims := workers.claims + 1 } ∧
      (0 < workers.dispenser.chunkSize → workers.dispenser.nextNonce + 1 < u64Limit →
        workers.answer worker = some workers.dispenser.nextNonce ∧
        window.current = workers.dispenser.nextNonce + 1 ∧
        window.limit ≤ workers.dispenser.nextNonce + workers.dispenser.chunkSize) := by
  unfold answer call LocalNonceWindow.nextNonce
  rw [if_neg (Nat.not_lt_of_le spent), if_pos spent]
  unfold ChunkedNonceDispenser.claimChunk saturatingAdd
  dsimp only
  split
  · exact ⟨_, rfl, fun _ _ => ⟨rfl, rfl, Nat.min_le_left _ _⟩⟩
  · exact ⟨_, rfl, fun positive before => by omega⟩

/-! ### Before the counter wraps -/

structure Counted (dispenser : ChunkedNonceDispenser) (claims : Nat) : Prop where
  positive : 0 < dispenser.chunkSize
  small : dispenser.chunkSize < u64Limit
  counter : dispenser.nextNonce = claims * dispenser.chunkSize
  inside : dispenser.nextNonce < u64Limit

theorem Counted.claimChunk {dispenser : ChunkedNonceDispenser} {claims : Nat}
    (counted : Counted dispenser claims)
    (room : (claims + 1) * dispenser.chunkSize < u64Limit) :
    Counted dispenser.claimChunk.1 (claims + 1) := by
  have next : dispenser.claimChunk.1.nextNonce = (claims + 1) * dispenser.chunkSize := by
    rw [Nat.succ_mul, ← counted.counter] at room ⊢
    exact Nat.mod_eq_of_lt room
  exact ⟨counted.positive, counted.small, next, next.trans_lt room⟩

def Holds (window : LocalNonceWindow) (nonce : Nat) : Prop :=
  window.current ≤ nonce ∧ nonce < window.limit

/-- Nothing has wrapped: a number below the counter is handed out, or left in one window, or
neither. -/
structure Apart (workers : Workers) : Prop where
  counted : Counted workers.dispenser workers.claims
  held : ∀ worker nonce, Holds (workers.windows worker) nonce →
    nonce < workers.dispenser.nextNonce ∧ nonce ∉ workers.handed
  apart : ∀ first second nonce, Holds (workers.windows first) nonce →
    Holds (workers.windows second) nonce → first = second
  claimed : ∀ nonce ∈ workers.handed, nonce < workers.dispenser.nextNonce
  once : workers.handed.Nodup

theorem new_apart (chunkSize : BitVec 64) : (new chunkSize).Apart where
  counted := ⟨lt_max_of_lt_right Nat.one_pos, max_lt chunkSize.isLt (by decide),
    (Nat.zero_mul _).symm, show 0 < u64Limit by decide⟩
  held := fun _ _ holds => absurd holds.2 (Nat.not_lt_zero _)
  apart := fun _ _ _ holds => absurd holds.2 (Nat.not_lt_zero _)
  claimed := nofun
  once := nodup_nil

/-- A call hands out the first number of the window it leaves; that window is the old one or lies
above the counter. -/
theorem Apart.serve (apart : workers.Apart) {dispenser : ChunkedNonceDispenser}
    {window : LocalNonceWindow} {given claims : Nat}
    (counted : Counted dispenser claims)
    (up : workers.dispenser.nextNonce ≤ dispenser.nextNonce)
    (next : window.current = given + 1)
    (own : ∀ nonce, given ≤ nonce → nonce = given ∨ nonce < window.limit →
      nonce < dispenser.nextNonce ∧ (Holds (workers.windows worker) nonce ∨
        workers.dispenser.nextNonce ≤ nonce)) :
    Apart ⟨dispenser, Function.update workers.windows worker window, workers.handed ++ [given],
      claims⟩ := by
  have unheld {other nonce : Nat} (free : Holds (workers.windows other) nonce ∨
      workers.dispenser.nextNonce ≤ nonce) : nonce ∉ workers.handed := fun member =>
    free.elim (fun holds => (apart.held other nonce holds).2 member)
      (Nat.not_le_of_lt (apart.claimed nonce member))
  -- what is held after the call was held before it or is above the counter, and was not given
  have held {other nonce : Nat}
      (holds : Holds (Function.update workers.windows worker window other) nonce) :
      nonce < dispenser.nextNonce ∧ nonce ≠ given ∧ (Holds (workers.windows other) nonce ∨
        other = worker ∧ workers.dispenser.nextNonce ≤ nonce) := by
    by_cases same : other = worker
    · subst same
      rw [Function.update_self] at holds
      have later : given < nonce := next.symm.trans_le holds.1
      obtain ⟨below, free⟩ := own nonce later.le (Or.inr holds.2)
      exact ⟨below, later.ne', free.imp_right (⟨rfl, ·⟩)⟩
    · rw [Function.update_of_ne same] at holds
      have below := (apart.held other nonce holds).1
      refine ⟨below.trans_le up, fun isGiven => ?_, Or.inl holds⟩
      rcases (own given le_rfl (Or.inl rfl)).2 with also | above
      · exact same (apart.apart other worker nonce holds (isGiven ▸ also))
      · exact Nat.not_lt_of_le above (isGiven ▸ below)
  have free := own given le_rfl (Or.inl rfl)
  have below := apart.held
  have old := apart.claimed
  refine ⟨counted, fun other nonce holds => ?_, fun first second nonce one two => ?_, ?_,
    nodup_append.mpr ⟨apart.once, nodup_singleton _, ?_⟩⟩
  · grind
  · have oneBefore := held one
    have twoBefore := held two
    grind [apart.apart first second nonce]
  · grind
  · grind

theorem Apart.call (apart : workers.Apart) (room : ¬(workers.call worker).UsedUp) :
    (workers.call worker).Apart := by
  by_cases spent : workers.Spent worker
  · obtain ⟨window, called, given⟩ := call_of_spent spent
    rw [called] at room ⊢
    have counted := apart.counted.claimChunk (Nat.lt_of_not_le room)
    have next : workers.dispenser.claimChunk.1.nextNonce =
        workers.dispenser.nextNonce + workers.dispenser.chunkSize := by
      rw [counted.counter, apart.counted.counter]
      exact Nat.succ_mul ..
    have positive : 0 < workers.dispenser.chunkSize := counted.positive
    have inside := next ▸ counted.inside
    obtain ⟨answered, current, limit⟩ := given positive (by omega)
    rw [answered]
    refine apart.serve counted ?_ current fun nonce above within => ⟨?_, Or.inr above⟩
    · rw [next]
      exact Nat.le_add_right _ _
    · rw [next]
      omega
  · rw [call_of_left spent]
    refine apart.serve apart.counted le_rfl rfl fun nonce above within => ?_
    have holds : Holds (workers.windows worker) nonce :=
      ⟨above, within.elim (fun same => same ▸ Nat.lt_of_not_le spent) id⟩
    exact ⟨(apart.held worker nonce holds).1, Or.inl holds⟩

/-! ### When it wraps -/

theorem UsedUp.call (used : workers.UsedUp) (worker : Nat) : (workers.call worker).UsedUp := by
  by_cases spent : workers.Spent worker
  · obtain ⟨window, called, -⟩ := call_of_spent spent
    rw [called]
    exact Nat.le_trans used (Nat.mul_le_mul_right _ (Nat.le_succ _))
  · rw [call_of_left spent]
    exact used

theorem UsedUp.run (used : workers.UsedUp) (calls : List Nat) :
    (Machine.run Workers.call workers calls).UsedUp := by
  induction calls generalizing workers with
  | nil => exact used
  | cons worker rest ih => exact ih (used.call worker)

/-- The counter wraps to a number below the chunk size, which a worker without a chunk is then
given. -/
theorem Apart.not_usedUp_call (apart : workers.Apart) {other : Nat}
    (idle : (workers.call worker).Spent other)
    (ends : (workers.call worker).UsedUp → (workers.call worker).answer other = none) :
    ¬(workers.call worker).UsedUp := by
  intro used
  have unanswered := ends used
  obtain ⟨positive, small, counter, inside⟩ := apart.counted
  by_cases spent : workers.Spent worker
  · obtain ⟨window, called, -⟩ := call_of_spent spent
    obtain ⟨_, -, given⟩ := call_of_spent idle
    rw [called] at used unanswered given
    have past : u64Limit ≤ (workers.claims + 1) * workers.dispenser.chunkSize := used
    rw [Nat.succ_mul, ← counter] at past
    have early : workers.dispenser.claimChunk.1.nextNonce + 1 < u64Limit := by
      show (workers.dispenser.nextNonce + workers.dispenser.chunkSize) % u64Limit + 1 < u64Limit
      rw [Nat.mod_eq_sub_mod past, Nat.mod_eq_of_lt (by omega)]
      omega
    exact Option.some_ne_none _ ((given positive early).1.symm.trans unanswered)
  · rw [call_of_left spent] at used
    have past : u64Limit ≤ workers.claims * workers.dispenser.chunkSize := used
    rw [← counter] at past
    exact Nat.not_le_of_lt inside past

variable {chunkSize : BitVec 64}

theorem after_concat (calls : List Nat) (worker : Nat) :
    after chunkSize (calls ++ [worker]) = (after chunkSize calls).call worker := by
  rw [after, Machine.run_append]
  rfl

theorem after_apart {calls : List Nat} (room : ¬(after chunkSize calls).UsedUp) :
    (after chunkSize calls).Apart := by
  induction calls using reverseRecOn with
  | nil => exact new_apart chunkSize
  | append_singleton calls worker ih =>
    rw [after_concat] at room ⊢
    exact (ih fun used => room (used.call worker)).call room

theorem exists_idle (chunkSize : BitVec 64) (calls : List Nat) : ∃ bound, ∀ worker,
    bound ≤ worker → (after chunkSize calls).windows worker = .empty := by
  induction calls using reverseRecOn with
  | nil => exact ⟨0, fun _ _ => rfl⟩
  | append_singleton calls caller ih =>
    obtain ⟨bound, idle⟩ := ih
    refine ⟨max bound (caller + 1), fun worker later => ?_⟩
    rw [after_concat]
    exact (Function.update_of_ne (by omega) ..).trans (idle worker (by omega))

/-- Over every run, nonces stay unique and a used-up dispenser stops exactly if the chunks that
were claimed do not hold all 64-bit numbers. The counter wraps, so the next worker without a chunk
is then handed numbers from the beginning again. -/
theorem nonces_sound_iff (chunkSize : BitVec 64) (calls : List Nat) :
    (∀ before, before <+: calls → (after chunkSize before).Sound) ↔
      ¬(after chunkSize calls).UsedUp := by
  constructor
  · intro sound
    induction calls using reverseRecOn with
    | nil => exact Nat.not_le_of_lt ((Nat.zero_mul _).trans_lt (by decide))
    | append_singleton calls worker ih =>
      have apart := after_apart (ih fun before isPrefix =>
        sound before (isPrefix.trans (prefix_append _ _)))
      have ends := (sound _ prefix_rfl).ends
      obtain ⟨bound, idle⟩ := exists_idle chunkSize (calls ++ [worker])
      have spent : (after chunkSize (calls ++ [worker])).Spent bound := by
        rw [Spent, idle bound le_rfl]
        exact le_rfl
      rw [after_concat] at ends spent ⊢
      exact apart.not_usedUp_call spent fun used => ends used bound spent
  · intro room before isPrefix
    have early : ¬(after chunkSize before).UsedUp := by
      obtain ⟨rest, rfl⟩ := isPrefix
      intro used
      rw [after, Machine.run_append] at room
      exact room (used.run rest)
    exact ⟨(after_apart early).once, fun used => absurd used early⟩

/-- Chunks of half the numbers: the third worker is handed what the first one was. -/
theorem third_chunk_wraps :
    (after (BitVec.ofNat 64 (2 ^ 63)) [0, 1, 2]).handed = [0, 2 ^ 63, 0] := by
  decide

end Workers

end Yip.Io
