/-
This file is the theory of open-addressed tables with linear probing, whose removals shift
entries back instead of leaving markers.
-/

import Mathlib.Data.List.Basic
import Mathlib.Tactic.SplitIfs

namespace LinearProbing

open List

/-! ### The ring -/

def distance (cap first second : Nat) : Nat :=
  if first ≤ second then second - first else cap - first + second

def next (cap slot : Nat) : Nat := if slot + 1 = cap then 0 else slot + 1

section Ring

variable {cap first second third origin : Nat}

theorem distance_self : distance cap first first = 0 := by simp [distance]

theorem distance_lt (inFirst : first < cap) (inSecond : second < cap) :
    distance cap first second < cap := by
  unfold distance
  split <;> omega

theorem next_lt (inside : first < cap) : next cap first < cap := by
  unfold next
  split <;> omega

theorem eq_of_distance_eq_zero (inFirst : first < cap) (zero : distance cap first second = 0) :
    first = second := by
  unfold distance at zero
  split at zero <;> omega

theorem distance_next (inFirst : first < cap) (notClosed : next cap second ≠ first) :
    distance cap first (next cap second) = distance cap first second + 1 := by
  unfold distance next at *
  split_ifs at * <;> omega

theorem distance_from_next (inFirst : first < cap) (inSecond : second < cap)
    (different : first ≠ second) :
    distance cap (next cap first) second + 1 = distance cap first second := by
  unfold distance next
  split_ifs <;> omega

theorem next_ne (inSecond : second < cap) (different : second ≠ first) :
    next cap first ≠ first := by
  unfold next
  split <;> omega

theorem distance_le_of_next_eq (inFirst : first < cap) (inThird : third < cap)
    (closed : next cap second = first) : distance cap first third ≤ distance cap first second := by
  unfold distance next at *
  split_ifs at * <;> omega

theorem distance_inj (inFirst : first < cap) (inSecond : second < cap) (inThird : third < cap)
    (same : distance cap first second = distance cap first third) : second = third := by
  unfold distance at same
  split_ifs at same <;> omega

theorem distance_le_of_between (inOrigin : origin < cap) (inFirst : first < cap)
    (inSecond : second < cap) (inThird : third < cap)
    (through : distance cap origin first ≤ distance cap origin third)
    (between : distance cap first second < distance cap first third) :
    distance cap origin second ≤ distance cap origin third := by
  unfold distance at *
  split_ifs at * <;> omega

end Ring

/-! ### Tables -/

abbrev Slots (Key Value : Type*) := List (Option (Key × Value))

section Tables

variable {Key Value : Type*}

def Occupied (slots : Slots Key Value) (slot : Nat) : Prop :=
  ∃ entry, slots[slot]? = some (some entry)

def Vacant (slots : Slots Key Value) (slot : Nat) : Prop := slots[slot]? = some none

def Holds (slots : Slots Key Value) (key : Key) (value : Value) : Prop :=
  ∃ slot : Nat, slots[slot]? = some (some (key, value))

def Unique (slots : Slots Key Value) : Prop :=
  ∀ {first second : Nat} {entry other : Key × Value}, slots[first]? = some (some entry) →
    slots[second]? = some (some other) → entry.1 = other.1 → first = second

def OnWay (cap home place slot : Nat) : Prop := distance cap home slot ≤ distance cap home place

/-- From its home to its place an entry passes no free slot. -/
structure Clustered (home : Key → Nat) (slots : Slots Key Value) : Prop where
  reached : ∀ {place : Nat} {entry : Key × Value}, slots[place]? = some (some entry) →
    ∀ slot < slots.length, OnWay slots.length (home entry.1) place slot → Occupied slots slot
  unique : Unique slots

def occupancy (slots : Slots Key Value) : Nat := slots.countP Option.isSome

variable {home : Key → Nat} {slots : Slots Key Value} {key : Key} {value : Value}
  {slot hole scan : Nat} {entry : Key × Value}

theorem lt_of_getElem?_eq {content : Option (Key × Value)} (stands : slots[slot]? = some content) :
    slot < slots.length := (List.getElem?_eq_some_iff.mp stands).1

theorem getElem?_set_of_lt (inside : slot < slots.length) (content : Option (Key × Value))
    (other : Nat) :
    (slots.set slot content)[other]? = if slot = other then some content else slots[other]? := by
  rw [getElem?_set, if_pos inside]

theorem Vacant.not_occupied (vacant : Vacant slots slot) : ¬ Occupied slots slot := by
  rintro ⟨entry, stands⟩
  rw [vacant] at stands
  cases stands

theorem exists_vacant (room : occupancy slots < slots.length) : ∃ slot, Vacant slots slot := by
  by_contra none
  have full : occupancy slots = slots.length := by
    refine countP_eq_length.mpr fun content inside => ?_
    obtain ⟨slot, stands⟩ := getElem?_of_mem inside
    cases content with
    | none => exact absurd ⟨slot, stands⟩ none
    | some entry => rfl
  omega

theorem occupancy_set {old : Option (Key × Value)} (stands : slots[slot]? = some old)
    (content : Option (Key × Value)) :
    occupancy (slots.set slot content) + old.isSome.toNat =
      occupancy slots + content.isSome.toNat := by
  obtain ⟨inside, rfl⟩ := List.getElem?_eq_some_iff.mp stands
  have counted : slots[slot].isSome.toNat ≤ slots.countP Option.isSome := by
    cases full : slots[slot].isSome with
    | false => exact Nat.zero_le _
    | true => exact countP_pos_iff.mpr ⟨_, getElem_mem inside, full⟩
  rw [occupancy, occupancy, countP_set inside]
  generalize slots.countP Option.isSome = count at counted ⊢
  generalize slots[slot].isSome = old at counted ⊢
  generalize content.isSome = new
  cases old <;> cases new <;> simp at counted ⊢ <;> omega

/-! ### Probing -/

def Passed (home : Key → Nat) (slots : Slots Key Value) (key : Key) (slot : Nat) : Prop :=
  ∀ other < slots.length,
    distance slots.length (home key) other < distance slots.length (home key) slot →
      ∃ entry, slots[other]? = some (some entry) ∧ entry.1 ≠ key

theorem passed_home : Passed home slots key (home key) := by
  intro other _ before
  rw [distance_self] at before
  exact absurd before (Nat.not_lt_zero _)

theorem Passed.next (passed : Passed home slots key slot) (homeInside : home key < slots.length)
    (stands : slots[slot]? = some (some entry)) (different : entry.1 ≠ key)
    (notClosed : next slots.length slot ≠ home key) :
    Passed home slots key (next slots.length slot) := by
  have inside := lt_of_getElem?_eq stands
  intro other otherInside before
  rw [distance_next homeInside notClosed] at before
  rcases Nat.lt_succ_iff_lt_or_eq.mp before with earlier | here
  · exact passed other otherInside earlier
  · rw [distance_inj homeInside otherInside inside here]
    exact ⟨entry, stands, different⟩

theorem Passed.not_closed (passed : Passed home slots key slot)
    (homeInside : home key < slots.length) (stands : slots[slot]? = some (some entry)) {gap : Nat}
    (vacant : Vacant slots gap) : LinearProbing.next slots.length slot ≠ home key := by
  intro closed
  have inside := lt_of_getElem?_eq stands
  have gapInside := lt_of_getElem?_eq vacant
  rcases Nat.lt_or_eq_of_le (distance_le_of_next_eq homeInside gapInside closed) with
    before | here
  · obtain ⟨other, occupied, _⟩ := passed gap gapInside before
    exact vacant.not_occupied ⟨other, occupied⟩
  · rw [← distance_inj homeInside gapInside inside here] at stands
    exact vacant.not_occupied ⟨entry, stands⟩

theorem Clustered.not_holds_of_vacant (clustered : Clustered home slots)
    (passed : Passed home slots key slot) (vacant : Vacant slots slot) :
    ¬ Holds slots key value := by
  rintro ⟨place, stands⟩
  have placeInside := lt_of_getElem?_eq stands
  have inside := lt_of_getElem?_eq vacant
  by_cases reached : OnWay slots.length (home key) place slot
  · exact vacant.not_occupied (clustered.reached stands slot inside reached)
  · obtain ⟨other, occupied, different⟩ := passed place placeInside (Nat.lt_of_not_le reached)
    rw [stands] at occupied
    cases occupied
    exact different rfl

/-! ### Changing a table -/

def Represents (slots : Slots Key Value) (map : Key → Option Value) : Prop :=
  ∀ key value, Holds slots key value ↔ map key = some value

theorem holds_set (inside : slot < slots.length) (content : Option (Key × Value)) :
    Holds (slots.set slot content) key value ↔
      content = some (key, value) ∨ ∃ place ≠ slot, slots[place]? = some (some (key, value)) := by
  constructor
  · rintro ⟨place, there⟩
    rw [getElem?_set_of_lt inside] at there
    split at there
    · exact .inl (Option.some.inj there)
    · rename_i elsewhere
      exact .inr ⟨place, Ne.symm elsewhere, there⟩
  · rintro (rfl | ⟨place, elsewhere, there⟩)
    · exact ⟨slot, by rw [getElem?_set_of_lt inside, if_pos rfl]⟩
    · exact ⟨place, by rw [getElem?_set_of_lt inside, if_neg elsewhere.symm, there]⟩

theorem Clustered.replace (clustered : Clustered home slots) {old : Value}
    (stands : slots[slot]? = some (some (key, old))) :
    Clustered home (slots.set slot (some (key, value))) := by
  have inside := lt_of_getElem?_eq stands
  have before : ∀ {place : Nat} {other : Key × Value},
      (slots.set slot (some (key, value)))[place]? = some (some other) →
        ∃ stored, slots[place]? = some (some (other.1, stored)) := by
    intro place other there
    rw [getElem?_set_of_lt inside] at there
    split at there
    · rename_i here
      cases there
      exact ⟨old, here ▸ stands⟩
    · exact ⟨other.2, there⟩
  refine ⟨fun {place entry} there other otherInside onWay => ?_,
    fun {first second entry other} there there' same => ?_⟩
  · rw [length_set] at otherInside onWay
    obtain ⟨stored, there⟩ := before there
    obtain ⟨content, occupies⟩ := clustered.reached there other otherInside onWay
    rw [Occupied, getElem?_set_of_lt inside]
    split
    · exact ⟨(key, value), rfl⟩
    · exact ⟨content, occupies⟩
  · obtain ⟨_, there⟩ := before there
    obtain ⟨_, there'⟩ := before there'
    exact clustered.unique there there' same

variable {map : Key → Option Value}

theorem Represents.set [DecidableEq Key] (represents : Represents slots map)
    (inside : slot < slots.length) (own : ∀ entry, slots[slot]? = some (some entry) → entry.1 = key)
    (only : ∀ place stored, slots[place]? = some (some (key, stored)) → place = slot)
    (content : Option Value) :
    Represents (slots.set slot (content.map (Prod.mk key))) (Function.update map key content) := by
  intro other stored
  rw [holds_set inside]
  by_cases same : other = key
  · subst same
    rw [Function.update_self]
    constructor
    · rintro (written | ⟨place, elsewhere, there⟩)
      · obtain ⟨value, rfl, pair⟩ := Option.map_eq_some_iff.mp written
        cases pair
        rfl
      · exact absurd (only place stored there) elsewhere
    · rintro rfl
      exact .inl rfl
  · rw [Function.update_of_ne same, ← represents]
    constructor
    · rintro (written | ⟨place, _, there⟩)
      · obtain ⟨value, _, pair⟩ := Option.map_eq_some_iff.mp written
        cases pair
        exact absurd rfl same
      · exact ⟨place, there⟩
    · rintro ⟨place, there⟩
      refine .inr ⟨place, ?_, there⟩
      rintro rfl
      exact same (own _ there)

theorem Represents.set_stands [DecidableEq Key] (represents : Represents slots map)
    (unique : Unique slots) (stands : slots[slot]? = some (some (key, value)))
    (content : Option Value) :
    Represents (slots.set slot (content.map (Prod.mk key))) (Function.update map key content) := by
  refine represents.set (lt_of_getElem?_eq stands) ?_ ?_ content
  · intro entry there
    rw [stands] at there
    cases there
    rfl
  · intro place stored there
    exact unique there stands rfl

theorem Represents.set_vacant [DecidableEq Key] (represents : Represents slots map)
    (vacant : Vacant slots slot) (absent : map key = none) (content : Option Value) :
    Represents (slots.set slot (content.map (Prod.mk key))) (Function.update map key content) := by
  refine represents.set (lt_of_getElem?_eq vacant) ?_ ?_ content
  · intro entry there
    exact absurd ⟨entry, there⟩ vacant.not_occupied
  · intro place stored there
    have held := (represents key stored).mp ⟨place, there⟩
    rw [absent] at held
    cases held

theorem Clustered.insert (clustered : Clustered home slots) (homeInside : home key < slots.length)
    (passed : Passed home slots key slot) (vacant : Vacant slots slot) :
    Clustered home (slots.set slot (some (key, value))) := by
  have inside := lt_of_getElem?_eq vacant
  have occupied : ∀ other, Occupied slots other →
      Occupied (slots.set slot (some (key, value))) other := by
    rintro other ⟨entry, stands⟩
    by_cases here : slot = other
    · exact absurd ⟨entry, here ▸ stands⟩ vacant.not_occupied
    · exact ⟨entry, by rw [getElem?_set_of_lt inside, if_neg here, stands]⟩
  have absent : ∀ {place : Nat} {entry : Key × Value}, slots[place]? = some (some entry) →
      entry.1 ≠ key := by
    rintro place ⟨other, stored⟩ stands rfl
    exact clustered.not_holds_of_vacant passed vacant ⟨place, stands⟩
  refine ⟨fun {place entry} stands other otherInside reached => ?_,
    fun {first second entry other} stands stands' same => ?_⟩
  · rw [length_set] at otherInside reached
    rw [getElem?_set_of_lt inside] at stands
    by_cases own : slot = other
    · exact ⟨(key, value), by rw [getElem?_set_of_lt inside, if_pos own]⟩
    · split at stands
      · rename_i here
        cases stands
        subst here
        have before :
            distance slots.length (home key) other < distance slots.length (home key) slot :=
          Nat.lt_of_le_of_ne reached fun equal =>
            own (distance_inj homeInside inside otherInside equal.symm)
        obtain ⟨entry, occupies, _⟩ := passed other otherInside before
        exact occupied other ⟨entry, occupies⟩
      · exact occupied other (clustered.reached stands other otherInside reached)
  · rw [getElem?_set_of_lt inside] at stands stands'
    split at stands <;> split at stands'
    · rename_i here there
      exact here.symm.trans there
    · cases stands
      exact absurd same.symm (absent stands')
    · cases stands'
      exact absurd same (absent stands)
    · exact clustered.unique stands stands' same

/-! ### Removing an entry -/

/-- The slots while a removal closes its hole. -/
structure Shifting (home : Key → Nat) (slots : Slots Key Value) (hole scan gap : Nat) : Prop where
  holeVacant : Vacant slots hole
  gapVacant : Vacant slots gap
  different : gap ≠ hole
  scanInside : scan < slots.length
  behind : scan ≠ hole
  ahead : distance slots.length hole scan ≤ distance slots.length hole gap
  reached : ∀ {place : Nat} {entry : Key × Value}, slots[place]? = some (some entry) →
    ∀ slot < slots.length, OnWay slots.length (home entry.1) place slot →
      slot = hole ∨ Occupied slots slot
  unique : Unique slots
  kept : ∀ {place : Nat} {entry : Key × Value}, slots[place]? = some (some entry) →
    distance slots.length hole place < distance slots.length hole scan →
      ¬ OnWay slots.length (home entry.1) place hole

theorem Clustered.shifting (clustered : Clustered home slots)
    (stands : slots[slot]? = some (some entry)) {gap : Nat} (vacant : Vacant slots gap) :
    Shifting home (slots.set slot none) slot (next slots.length slot) gap := by
  have inside := lt_of_getElem?_eq stands
  have different : gap ≠ slot := by
    rintro rfl
    exact vacant.not_occupied ⟨entry, stands⟩
  have behind : LinearProbing.next slots.length slot ≠ slot :=
    next_ne (lt_of_getElem?_eq vacant) different
  have step : distance slots.length slot (LinearProbing.next slots.length slot) = 1 := by
    rw [distance_next inside behind, distance_self]
  have before : ∀ {place : Nat} {other : Key × Value},
      (slots.set slot none)[place]? = some (some other) →
        slot ≠ place ∧ slots[place]? = some (some other) := by
    intro place other there
    rw [getElem?_set_of_lt inside] at there
    split at there
    · cases there
    · rename_i elsewhere
      exact ⟨elsewhere, there⟩
  refine ⟨?_, ?_, different, ?_, behind, ?_, ?_, ?_, ?_⟩
  · rw [Vacant, getElem?_set_of_lt inside, if_pos rfl]
  · rw [Vacant, getElem?_set_of_lt inside, if_neg different.symm, vacant]
  · rw [length_set]
    exact next_lt inside
  · rw [length_set, step]
    exact Nat.one_le_iff_ne_zero.mpr fun zero => different (eq_of_distance_eq_zero inside zero).symm
  · intro place other there reached reachedInside onWay
    rw [length_set] at reachedInside onWay
    obtain ⟨content, occupies⟩ := clustered.reached (before there).2 reached reachedInside onWay
    by_cases here : slot = reached
    · exact .inl here.symm
    · exact .inr ⟨content, by rw [getElem?_set_of_lt inside, if_neg here, occupies]⟩
  · intro first second one other there there' same
    exact clustered.unique (before there).2 (before there').2 same
  · intro place other there near
    rw [length_set, step, Nat.lt_one_iff] at near
    exact absurd (eq_of_distance_eq_zero inside near) (before there).1

namespace Shifting

variable {gap : Nat}

section

variable (shifting : Shifting home slots hole scan gap)

include shifting

theorem distance_lt_gap (stands : slots[scan]? = some (some entry)) :
    distance slots.length hole scan < distance slots.length hole gap := by
  refine Nat.lt_of_le_of_ne shifting.ahead fun same => ?_
  rw [distance_inj (lt_of_getElem?_eq shifting.holeVacant) shifting.scanInside
    (lt_of_getElem?_eq shifting.gapVacant) same] at stands
  exact shifting.gapVacant.not_occupied ⟨entry, stands⟩

theorem scan_ne_gap (stands : slots[scan]? = some (some entry)) : scan ≠ gap := by
  rintro rfl
  exact shifting.gapVacant.not_occupied ⟨entry, stands⟩

theorem next_ne_hole (stands : slots[scan]? = some (some entry)) :
    next slots.length scan ≠ hole := by
  intro closed
  have before := shifting.distance_lt_gap stands
  have last := distance_le_of_next_eq (lt_of_getElem?_eq shifting.holeVacant)
    (lt_of_getElem?_eq shifting.gapVacant) closed
  omega

theorem stay (stands : slots[scan]? = some (some entry))
    (clear : ¬ OnWay slots.length (home entry.1) scan hole) :
    Shifting home slots hole (next slots.length scan) gap := by
  have holeInside := lt_of_getElem?_eq shifting.holeVacant
  have farther := distance_next holeInside (shifting.next_ne_hole stands)
  refine { shifting with
    scanInside := next_lt shifting.scanInside
    behind := shifting.next_ne_hole stands
    ahead := ?_
    kept := ?_ }
  · rw [farther]
    exact shifting.distance_lt_gap stands
  · intro place other there near
    rw [farther] at near
    rcases Nat.lt_succ_iff_lt_or_eq.mp near with earlier | here
    · exact shifting.kept there earlier
    · have same := distance_inj holeInside (lt_of_getElem?_eq there) shifting.scanInside here
      rw [same, stands] at there
      cases there
      rwa [same]

theorem getElem?_moved (place : Nat) :
    ((slots.set scan none).set hole (some entry))[place]? =
      if hole = place then some (some entry) else if scan = place then some none
      else slots[place]? := by
  have holeInside : hole < (slots.set scan none).length := by
    rw [length_set]
    exact lt_of_getElem?_eq shifting.holeVacant
  rw [getElem?_set_of_lt holeInside, getElem?_set_of_lt shifting.scanInside]

theorem stands_moved {place : Nat} {other : Key × Value}
    (there : ((slots.set scan none).set hole (some entry))[place]? = some (some other)) :
    (place = hole ∧ other = entry) ∨
      place ≠ hole ∧ place ≠ scan ∧ slots[place]? = some (some other) := by
  rw [shifting.getElem?_moved] at there
  split at there
  · rename_i here
    cases there
    exact .inl ⟨here.symm, rfl⟩
  · rename_i elsewhere
    split at there
    · cases there
    · rename_i elsewhere'
      exact .inr ⟨Ne.symm elsewhere, Ne.symm elsewhere', there⟩

theorem occupied_moved {place : Nat} (occupied : place = hole ∨ Occupied slots place) :
    place = scan ∨ Occupied ((slots.set scan none).set hole (some entry)) place := by
  by_cases left : place = scan
  · exact .inl left
  · refine .inr ?_
    rw [Occupied, shifting.getElem?_moved]
    rcases occupied with rfl | ⟨content, stands⟩
    · exact ⟨entry, if_pos rfl⟩
    · rw [if_neg (Ne.symm left), stands]
      split
      · exact ⟨entry, rfl⟩
      · exact ⟨content, rfl⟩

theorem move (stands : slots[scan]? = some (some entry))
    (onWay : OnWay slots.length (home entry.1) scan hole) :
    Shifting home ((slots.set scan none).set hole (some entry)) scan (next slots.length scan)
      gap := by
  have apart := shifting.scan_ne_gap stands
  have behind : next slots.length scan ≠ scan :=
    next_ne (lt_of_getElem?_eq shifting.gapVacant) apart.symm
  have step : distance slots.length scan (next slots.length scan) = 1 := by
    rw [distance_next shifting.scanInside behind, distance_self]
  have length : ((slots.set scan none).set hole (some entry)).length = slots.length := by
    rw [length_set, length_set]
  have holeUnique : ∀ {place : Nat} {other : Key × Value}, place ≠ scan →
      slots[place]? = some (some other) → entry.1 ≠ other.1 := by
    intro place other elsewhere there same
    exact elsewhere (shifting.unique there stands same.symm)
  refine ⟨?_, ?_, apart.symm, ?_, behind, ?_, ?_, ?_, ?_⟩
  · rw [Vacant, shifting.getElem?_moved, if_neg shifting.behind.symm, if_pos rfl]
  · rw [Vacant, shifting.getElem?_moved, if_neg shifting.different.symm, if_neg apart,
      shifting.gapVacant]
  · rw [length]
    exact next_lt shifting.scanInside
  · rw [length, step]
    exact Nat.one_le_iff_ne_zero.mpr fun zero =>
      apart (eq_of_distance_eq_zero shifting.scanInside zero)
  · intro place other there slot slotInside through
    rw [length] at slotInside through
    refine shifting.occupied_moved ?_
    rcases shifting.stands_moved there with ⟨rfl, rfl⟩ | ⟨_, _, before⟩
    · exact shifting.reached stands slot slotInside (Nat.le_trans through onWay)
    · exact shifting.reached before slot slotInside through
  · intro first second one other there there' same
    rcases shifting.stands_moved there with ⟨rfl, rfl⟩ | ⟨_, apart, before⟩ <;>
      rcases shifting.stands_moved there' with ⟨rfl, rfl⟩ | ⟨_, apart', before'⟩
    · rfl
    · exact absurd same (holeUnique apart' before')
    · exact absurd same.symm (holeUnique apart before)
    · exact shifting.unique before before' same
  · intro place other there near
    rw [length, step, Nat.lt_one_iff] at near
    rcases shifting.stands_moved there with ⟨here, _⟩ | ⟨_, apart, _⟩
    · exact absurd ((eq_of_distance_eq_zero shifting.scanInside near).trans here) shifting.behind
    · exact absurd (eq_of_distance_eq_zero shifting.scanInside near).symm apart

theorem holds_moved (stands : slots[scan]? = some (some entry)) :
    Holds ((slots.set scan none).set hole (some entry)) key value ↔ Holds slots key value := by
  constructor
  · rintro ⟨place, there⟩
    rcases shifting.stands_moved there with ⟨_, rfl⟩ | ⟨_, _, before⟩
    · exact ⟨scan, stands⟩
    · exact ⟨place, before⟩
  · rintro ⟨place, there⟩
    by_cases here : scan = place
    · rw [← here, stands] at there
      cases there
      exact ⟨hole, by rw [shifting.getElem?_moved, if_pos rfl]⟩
    · refine ⟨place, ?_⟩
      have occupies : hole ≠ place := by
        rintro rfl
        exact shifting.holeVacant.not_occupied ⟨_, there⟩
      rw [shifting.getElem?_moved, if_neg occupies, if_neg here, there]

theorem occupancy_moved (stands : slots[scan]? = some (some entry)) :
    occupancy ((slots.set scan none).set hole (some entry)) = occupancy slots := by
  have holeStill : (slots.set scan none)[hole]? = some none := by
    rw [getElem?_set_of_lt shifting.scanInside, if_neg shifting.behind, shifting.holeVacant]
  have emptied := occupancy_set stands none
  have filled := occupancy_set holeStill (some entry)
  simp only [Option.isSome_none, Option.isSome_some, Bool.toNat_true, Bool.toNat_false]
    at emptied filled
  omega

theorem clustered (homeInside : ∀ key, home key < slots.length) (vacant : Vacant slots scan) :
    Clustered home slots := by
  have holeInside := lt_of_getElem?_eq shifting.holeVacant
  refine ⟨fun {place entry} stands slot slotInside onWay => ?_, shifting.unique⟩
  have placeInside := lt_of_getElem?_eq stands
  rcases shifting.reached stands slot slotInside onWay with rfl | occupied
  · exfalso
    by_cases near : distance slots.length slot place < distance slots.length slot scan
    · exact shifting.kept stands near onWay
    · -- The way leads through the hole and the vacant slot `scan`.
      have apart : distance slots.length slot scan ≠ distance slots.length slot place := by
        intro same
        rw [← distance_inj slotInside shifting.scanInside placeInside same] at stands
        exact vacant.not_occupied ⟨entry, stands⟩
      have through := distance_le_of_between (homeInside entry.1) slotInside shifting.scanInside
        placeInside onWay (by omega)
      rcases shifting.reached stands scan shifting.scanInside through with here | occupied
      · exact shifting.behind here
      · exact vacant.not_occupied occupied
  · exact occupied

end

end Shifting

end Tables

end LinearProbing
