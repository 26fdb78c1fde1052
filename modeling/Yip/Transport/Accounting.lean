/-
This file audits the counters of a reassembler against a ledger of the objects that entered the
table and of those that were returned.
-/

import Yip.Transport.Objects

namespace Yip.Transport

open FecReassembler List

/-- A reassembler, the objects it began and the objects it returned. -/
structure Ledger where
  re : FecReassembler
  entered : List Nat
  returned : List Nat

namespace Ledger

def new (symbolSize maxObjects : Nat) : Ledger := ⟨FecReassembler.new symbolSize maxObjects, [], []⟩

def step (ledger : Ledger) : Event → Ledger
  | .push objectKey symbol nowMs deadlineMs =>
    let (re, object) := ledger.re.push objectKey symbol nowMs deadlineMs
    { re := re
      entered :=
        if (re.objects.lookup objectKey).isSome ∧ objectKey ∉ ledger.entered then
          objectKey :: ledger.entered
        else ledger.entered
      returned := if object.isSome then objectKey :: ledger.returned else ledger.returned }
  | .setSymbolSize size => { ledger with re := ledger.re.setSymbolSize size }

/-- The objects that are gone without having been returned. -/
def lost (ledger : Ledger) : List Nat :=
  ledger.entered.filter fun key =>
    (ledger.re.objects.lookup key).isNone && decide (key ∉ ledger.returned)

def Expected (ledger : Ledger) (objectKey nowMs : Nat) : Option ObjState → Prop
  | some state => state.done = true ∨ nowMs ≤ state.expiresAtMs
  | none => objectKey ∉ ledger.entered

instance (ledger : Ledger) (objectKey nowMs : Nat) (found : Option ObjState) :
    Decidable (ledger.Expected objectKey nowMs found) := by
  unfold Expected
  split <;> infer_instance

/-- No symbol brings back an object that is gone, or one whose deadline has passed. -/
def Regular (ledger : Ledger) : Event → Prop
  | .push objectKey symbol nowMs _ =>
    nowMs < 2 ^ 64 ∧ ((ledger.re.accept objectKey symbol).isSome →
      ledger.Expected objectKey nowMs (ledger.re.objects.lookup objectKey))
  | .setSymbolSize _ => True

/-- An object in the table was begun, and is done exactly if it was returned. -/
structure Entry (entered returned : List Nat) (key : Nat) (state : ObjState) : Prop where
  shaped : ∃ size, state.Shaped size
  entered : key ∈ entered
  phase : (state.done = true ∧ key ∈ returned) ∨
    (state.done = false ∧ key ∉ returned ∧ ∃ seen, Pending state seen)

/-- The count of unrecoverable objects is the number of those lost. -/
structure Audited (ledger : Ledger) : Prop where
  entries : ∀ key state, ledger.re.objects.lookup key = some state →
    Entry ledger.entered ledger.returned key state
  distinct : ledger.entered.Nodup
  known : ∀ key ∈ ledger.returned, key ∈ ledger.entered
  once : ledger.returned.Nodup
  count : ledger.re.unrecoverableCount = min ledger.lost.length (2 ^ 64 - 1)

variable {ledger : Ledger}

theorem mem_lost {key : Nat} :
    key ∈ ledger.lost ↔ key ∈ ledger.entered ∧ ledger.re.objects.lookup key = none ∧
      key ∉ ledger.returned := by
  simp [lost, mem_filter]

theorem nodup_lost (distinct : ledger.entered.Nodup) : ledger.lost.Nodup :=
  distinct.filter _

theorem length_lost_congr {ledger after : Ledger} (distinct : ledger.entered.Nodup)
    (distinctAfter : after.entered.Nodup) (same : ∀ key, key ∈ after.lost ↔ key ∈ ledger.lost) :
    after.lost.length = ledger.lost.length :=
  ((perm_ext_iff_of_nodup (nodup_lost distinctAfter) (nodup_lost distinct)).mpr
    same).length_eq

/-! ### Dropping -/

theorem Audited.drop {objectKey : Nat} {ledger : Ledger} (audited : ledger.Audited)
    {after : FecReassembler} (drop : Drop objectKey ledger.re after) :
    ({ ledger with re := after } : Ledger).Audited := by
  obtain ⟨entries, distinct, known, once, count⟩ := audited
  refine ⟨fun key state holds => entries key state (drop.lookup.2 key state holds), distinct, known,
    once, ?_⟩
  let dropped : Ledger := { ledger with re := after }
  have distinctAfter : dropped.entered.Nodup := distinct
  cases drop with
  | reorder objects sameCount =>
    have same : dropped.lost.length = ledger.lost.length := by
      refine length_lost_congr distinct distinctAfter fun key => ?_
      rw [mem_lost, mem_lost]
      dsimp only [dropped]
      rw [objects]
    rw [sameCount, count, same]
  | drop key state _ holds objects newCount =>
    have entry := entries key state holds
    have lookup : ∀ other, after.objects.lookup other = none ↔
        ledger.re.objects.lookup other = none ∨ other = key := by
      intro other
      rw [objects]
      by_cases same : other = key
      · rw [same, AList.lookup_erase]
        simp
      · rw [AList.lookup_erase_ne same]
        simp [same]
    rcases entry.phase with ⟨done, returned⟩ | ⟨pending, unreturned, _⟩
    · have same : dropped.lost.length = ledger.lost.length := by
        refine length_lost_congr distinct distinctAfter fun other => ?_
        rw [mem_lost, mem_lost]
        dsimp only [dropped]
        rw [lookup]
        constructor
        · rintro ⟨member, gone | rfl, notReturned⟩
          · exact ⟨member, gone, notReturned⟩
          · exact absurd returned notReturned
        · rintro ⟨member, gone, notReturned⟩
          exact ⟨member, Or.inl gone, notReturned⟩
      rw [newCount, if_pos done, count, same]
    · have more : dropped.lost.Perm (key :: ledger.lost) := by
        refine (perm_ext_iff_of_nodup (nodup_lost distinctAfter) (nodup_cons.mpr
          ⟨fun member => ?_, nodup_lost distinct⟩)).mpr fun other => ?_
        · rw [(mem_lost.mp member).2.1] at holds
          cases holds
        · rw [mem_cons, mem_lost, mem_lost]
          dsimp only [dropped]
          rw [lookup]
          constructor
          · rintro ⟨member, gone | isKey, notReturned⟩
            · exact Or.inr ⟨member, gone, notReturned⟩
            · exact Or.inl isKey
          · rintro (rfl | ⟨member, gone, notReturned⟩)
            · exact ⟨entry.entered, Or.inr rfl, unreturned⟩
            · exact ⟨member, Or.inl gone, notReturned⟩
      rw [newCount, if_neg (by rw [pending]; exact Bool.false_ne_true), count, more.length_eq,
        length_cons, bump]
      omega

theorem Audited.drops {objectKey : Nat} {ledger : Ledger} (audited : ledger.Audited)
    {after : FecReassembler} (drops : Drops objectKey ledger.re after) :
    ({ ledger with re := after } : Ledger).Audited := by
  induction drops with
  | refl => exact audited
  | tail _ drop ih => exact Audited.drop ih drop

/-! ### Working a symbol in -/

theorem Audited.work (audited : ledger.Audited) {objectKey : Nat}
    {after : FecReassembler} {state : ObjState} {entered returned : List Nat}
    (own : after.objects.lookup objectKey = some state)
    (others : ∀ key ≠ objectKey, after.objects.lookup key = ledger.re.objects.lookup key)
    (sameCount : after.unrecoverableCount = ledger.re.unrecoverableCount)
    (absent : ledger.re.objects.lookup objectKey = none → objectKey ∉ ledger.entered)
    (enters : entered = if objectKey ∉ ledger.entered then objectKey :: ledger.entered
      else ledger.entered)
    (returns : returned = ledger.returned ∨
      returned = objectKey :: ledger.returned ∧ objectKey ∉ ledger.returned)
    (entry : Entry entered returned objectKey state) :
    (⟨after, entered, returned⟩ : Ledger).Audited := by
  obtain ⟨entries, distinct, known, once, count⟩ := audited
  have mem_entered : ∀ key, key ∈ entered ↔ key ∈ ledger.entered ∨ key = objectKey := by
    intro key
    rw [enters]
    split
    · rw [mem_cons, or_comm]
    · rename_i inside
      refine ⟨Or.inl, fun either => either.elim id ?_⟩
      rintro rfl
      exact not_not.mp inside
  have mem_returned : ∀ key ≠ objectKey, key ∈ returned ↔ key ∈ ledger.returned := by
    intro key other
    rcases returns with rfl | ⟨rfl, _⟩
    · exact Iff.rfl
    · simp [other]
  have distinctAfter : entered.Nodup := by
    rw [enters]
    split
    · rename_i new
      exact nodup_cons.mpr ⟨new, distinct⟩
    · exact distinct
  refine ⟨fun key found holds => ?_, distinctAfter, fun key member => ?_, ?_, ?_⟩
  · by_cases isOwn : key = objectKey
    · subst isOwn
      rw [own] at holds
      exact Option.some.inj holds ▸ entry
    · rw [others key isOwn] at holds
      obtain ⟨shaped, member, phase⟩ := entries key found holds
      refine ⟨shaped, (mem_entered key).mpr (Or.inl member), ?_⟩
      rwa [mem_returned key isOwn]
  · by_cases isOwn : key = objectKey
    · exact (mem_entered key).mpr (Or.inr isOwn)
    · exact (mem_entered key).mpr (Or.inl (known key ((mem_returned key isOwn).mp member)))
  · rcases returns with rfl | ⟨rfl, new⟩
    · exact once
    · exact nodup_cons.mpr ⟨new, once⟩
  · have same : (⟨after, entered, returned⟩ : Ledger).lost.length = ledger.lost.length := by
      refine length_lost_congr distinct distinctAfter fun key => ?_
      rw [mem_lost, mem_lost]
      by_cases isOwn : key = objectKey
      · subst isOwn
        rw [own]
        refine iff_of_false (fun all => by cases all.2.1) fun all => absent all.2.1 all.1
      · rw [mem_entered, others key isOwn, mem_returned key isOwn]
        simp [isOwn]
    rw [sameCount, count, same]

theorem Audited.start {ledger : Ledger} (audited : ledger.Audited)
    {objectKey nowMs deadlineMs : Nat} {symbol : Symbol} {incoming : Incoming}
    (accepted : ledger.re.accept objectKey symbol = some incoming)
    (regular : ledger.Regular (.push objectKey symbol nowMs deadlineMs)) :
    let start := ledger.re.start objectKey incoming symbol.objectSize nowMs deadlineMs
    (start.done = true ∧ objectKey ∈ ledger.returned) ∨
      (objectKey ∉ ledger.returned ∧ nowMs ≤ start.expiresAtMs ∧ ∃ seen, Pending start seen) := by
  obtain ⟨inTime, regular⟩ := regular
  have regular := regular (by rw [accepted]; rfl)
  unfold FecReassembler.start
  cases known : ledger.re.objects.lookup objectKey with
  | some state =>
    rw [known] at regular
    rcases (audited.entries objectKey state known).phase with done | ⟨pending, unreturned, seen⟩
    · exact Or.inl done
    · refine Or.inr ⟨unreturned, regular.resolve_left ?_, seen⟩
      rw [pending]
      exact Bool.false_ne_true
  | none =>
    rw [known] at regular
    have some := (accept_spec accepted).2.2.2.2.1.1
    refine Or.inr ⟨fun returned => regular (audited.known _ returned), ?_, [],
      pending_fresh incoming _ nowMs deadlineMs some⟩
    change nowMs ≤ min (nowMs + deadlineMs) (2 ^ 64 - 1)
    omega

theorem Audited.push (audited : ledger.Audited) {objectKey nowMs deadlineMs : Nat}
    {symbol : Symbol} (regular : ledger.Regular (.push objectKey symbol nowMs deadlineMs)) :
    (ledger.step (.push objectKey symbol nowMs deadlineMs)).Audited := by
  unfold Ledger.step
  dsimp only
  rcases push_cases ledger.re objectKey symbol nowMs deadlineMs with
    ⟨_, same⟩ | ⟨incoming, dropped, accepted, drops, count, own, others, output⟩
  · -- the guards refuse the symbol
    have entered : (if (ledger.re.objects.lookup objectKey).isSome ∧ objectKey ∉ ledger.entered then
        objectKey :: ledger.entered else ledger.entered) = ledger.entered := by
      refine if_neg fun both => both.2 ?_
      obtain ⟨state, holds⟩ := Option.isSome_iff_exists.mp both.1
      exact (audited.entries objectKey state holds).entered
    rw [same, entered, if_neg (by simp)]
    exact audited
  have absent : dropped.objects.lookup objectKey = none → objectKey ∉ ledger.entered := by
    intro none
    have regular := regular.2 (by rw [accepted]; rfl)
    rw [drops.lookup.1] at none
    rwa [none] at regular
  obtain ⟨size, shaped, startSize, _, bound, length⟩ := accepted_fits accepted
    (fun state holds => (audited.entries objectKey state holds).shaped) nowMs deadlineMs
  have shapedAfter := (alike_ingest _ incoming.symbolIndex incoming.scheme symbol.data nowMs).shaped
    shaped
  have member : ∀ entered : List Nat, entered = (if objectKey ∉ ledger.entered then
      objectKey :: ledger.entered else ledger.entered) → objectKey ∈ entered := by
    rintro entered rfl
    split
    · exact mem_cons_self
    · rename_i inside
      exact not_not.mp inside
  rw [output, own]
  simp only [Option.isSome_some, true_and]
  rcases audited.start accepted regular with ⟨done, returned⟩ | ⟨unreturned, inTime, seen, pending⟩
  · obtain ⟨still, nothing⟩ := ingest_of_done done incoming.symbolIndex incoming.scheme symbol.data
      nowMs
    rw [nothing, Option.isSome_none, if_neg Bool.false_ne_true]
    exact (audited.drops drops).work own others count absent rfl (Or.inl rfl)
      ⟨⟨size, shapedAfter⟩, member _ rfl, Or.inl ⟨still, returned⟩⟩
  · rcases pending.ingest shaped nowMs bound
        (length.trans (congrArg (wireLen _ _ · _) startSize.symm)) with
      ⟨late, _, _⟩ | ⟨done, object, _⟩ | ⟨nothing, seen', goesOn, _⟩
    · omega
    · rw [if_pos object]
      exact (audited.drops drops).work own others count absent rfl (Or.inr ⟨rfl, unreturned⟩)
        ⟨⟨size, shapedAfter⟩, member _ rfl, Or.inl ⟨done, mem_cons_self⟩⟩
    · rw [nothing, Option.isSome_none, if_neg Bool.false_ne_true]
      exact (audited.drops drops).work own others count absent rfl (Or.inl rfl)
        ⟨⟨size, shapedAfter⟩, member _ rfl, Or.inr ⟨goesOn.pending, unreturned, seen', goesOn⟩⟩

theorem Audited.step (audited : ledger.Audited) {event : Event}
    (regular : ledger.Regular event) : (ledger.step event).Audited := by
  cases event with
  | push objectKey symbol nowMs deadlineMs => exact audited.push regular
  | setSymbolSize size =>
    exact { audited with }

theorem length_entered_step (ledger : Ledger) (event : Event) :
    (ledger.step event).entered.length ≤ ledger.entered.length + 1 := by
  cases event with
  | setSymbolSize => exact Nat.le_succ _
  | push =>
    unfold Ledger.step
    dsimp only
    split
    · exact le_rfl
    · exact Nat.le_succ _

theorem length_entered_run (ledger : Ledger) (events : List Event) :
    (Machine.run Ledger.step ledger events).entered.length ≤
      ledger.entered.length + events.length := by
  induction events generalizing ledger with
  | nil => exact le_rfl
  | cons event rest ih =>
    have next := ledger.length_entered_step event
    have later := ih (ledger.step event)
    rw [Machine.run_cons, length_cons]
    omega

theorem audited_new (symbolSize maxObjects : Nat) : (new symbolSize maxObjects).Audited := by
  refine ⟨fun key state holds => ?_, nodup_nil,
    fun _ member => absurd member not_mem_nil, nodup_nil, rfl⟩
  change (∅ : AList fun _ : Nat => ObjState).lookup key = some state at holds
  rw [AList.lookup_empty] at holds
  cases holds

/-- The books of a reassembler: in every run of regular pushes, with changes of the symbol size in
between, the count of unrecoverable objects is the number of the objects that were lost, and no
object is returned twice. -/
theorem unrecoverable_counts_lost (symbolSize maxObjects : Nat) (events : List Event)
    (short : events.length < 2 ^ 64)
    (regular : Machine.Admissible Ledger.step Regular (new symbolSize maxObjects) events) :
    (Machine.run Ledger.step (new symbolSize maxObjects) events).re.unrecoverableCount =
        (Machine.run Ledger.step (new symbolSize maxObjects) events).lost.length ∧
      (Machine.run Ledger.step (new symbolSize maxObjects) events).returned.Nodup := by
  have audited := Machine.run_invariant Ledger.step Regular Audited
    (fun _ _ audited regular => audited.step regular) _ events (audited_new symbolSize maxObjects)
    regular
  have few := length_entered_run (new symbolSize maxObjects) events
  have fewer : (Machine.run Ledger.step (new symbolSize maxObjects) events).lost.length ≤
      (Machine.run Ledger.step (new symbolSize maxObjects) events).entered.length :=
    length_filter_le _ _
  refine ⟨?_, audited.once⟩
  rw [audited.count]
  change _ ≤ 0 + events.length at few
  omega

section Executions

def smallSymbol (objectSize index length : Nat) : Symbol :=
  ⟨0, objectSize, packPayloadId index 0, List.replicate length 0⟩

def ordinary : List Event :=
  [.push 1 (smallSymbol 2 0 2) 0 10, .push 2 (smallSymbol 3 0 2) 1 10,
    .push 3 (smallSymbol 3 0 2) 12 10]

theorem ordinary_books :
    (Machine.run Ledger.step (new 2 4) ordinary).re.unrecoverableCount = 1 ∧
      (Machine.run Ledger.step (new 2 4) ordinary).lost = [2] ∧
      (Machine.run Ledger.step (new 2 4) ordinary).returned.Nodup := by
  have books := unrecoverable_counts_lost 2 4 ordinary (by decide)
    ⟨⟨by decide, by decide +kernel⟩, ⟨by decide, by decide +kernel⟩, ⟨by decide, by decide +kernel⟩,
      trivial⟩
  have lost : (Machine.run Ledger.step (new 2 4) ordinary).lost = [2] := by decide +kernel
  exact ⟨by rw [books.1, lost]; rfl, lost, books.2⟩

/-- A symbol for an object past its deadline turns it into a tombstone. When that is swept away
nothing is counted, although the object is lost. A symbol for an object that was returned and swept
away returns it again. -/
theorem tombstone_uncounted_and_object_returned_twice :
    let late := Machine.run Ledger.step (new 2 4)
      [.push 1 (smallSymbol 3 0 2) 0 10, .push 1 (smallSymbol 3 1 1) 11 10,
        .push 2 (smallSymbol 2 0 2) 12 10]
    let again := Machine.run Ledger.step (new 2 4)
      [.push 1 (smallSymbol 2 0 2) 0 10, .push 2 (smallSymbol 2 0 2) 1 10,
        .push 1 (smallSymbol 2 0 2) 2 10]
    (late.lost = [1] ∧ late.re.unrecoverableCount = 0) ∧ again.returned = [1, 2, 1] := by
  decide +kernel

end Executions

end Ledger

end Yip.Transport
