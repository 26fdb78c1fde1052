/-
This file is the theory of a store that keeps, for each key, the item with the latest stamp it
was offered; at a tie the one that came first stays.
-/

import Mathlib.Data.Set.Finite.Lemmas

namespace LatestWins

open List Option

section Store

variable {Key Item : Type*} (key : Item → Key) (stamp : Item → ℕ) (stands : Item → Bool)

def later (held : Option Item) (item : Item) : Option Item :=
  match held with
  | none => some item
  | some current => if stamp item ≤ stamp current then some current else some item

def sweep (store : Key → Option Item) : Key → Option Item := fun place =>
  (store place).filter stands

variable {key stamp stands} {store : Key → Option Item} {place : Key} {items : List Item}

variable {held item found : Item}

theorem stands_of_sweep (swept : sweep stands store place = some held) :
    store place = some held ∧ stands held :=
  filter_eq_some_iff.mp swept

theorem sweep_eq_some (isHeld : store place = some held) (standing : stands held) :
    sweep stands store place = some held := filter_eq_some_iff.mpr ⟨isHeld, standing⟩

theorem sweep_sweep : sweep stands (sweep stands store) = sweep stands store := by
  funext place
  simp [sweep, Option.filter_filter]

theorem later_of_lt {held : Option Item}
    (ahead : ∀ current, held = some current → stamp current < stamp item) :
    later stamp held item = some item := by
  cases held with
  | none => rfl
  | some current => exact if_neg (not_le.mpr (ahead current rfl))

theorem later_of_le {current : Item} (behind : stamp item ≤ stamp current) :
    later stamp (some current) item = some current := if_pos behind

theorem later_eq_some {held : Option Item} (isFound : later stamp held item = some found) :
    (held = some found ∧ stamp item ≤ stamp found) ∨ found = item := by
  cases held with
  | none => exact Or.inr (some.inj isFound).symm
  | some current =>
    unfold later at isFound
    dsimp only at isFound
    split at isFound
    · rename_i behind
      obtain rfl := some.inj isFound
      exact Or.inl ⟨rfl, behind⟩
    · exact Or.inr (some.inj isFound).symm

theorem exists_peak (member : item ∈ items) (standing : stands item) (here : key item = place) :
    ∃ peak ∈ items, stands peak ∧ key peak = place ∧
      ∀ other ∈ items, stands other → key other = place → stamp other ≤ stamp peak := by
  let candidates := {other | other ∈ items ∧ stands other ∧ key other = place}
  have finite : candidates.Finite :=
    items.finite_toSet.subset fun other candidate => candidate.1
  obtain ⟨peak, ⟨among, stand, at_⟩, greatest⟩ :=
    Set.exists_max_image candidates stamp finite ⟨item, member, standing, here⟩
  exact ⟨peak, among, stand, at_, fun other isItem isStanding isHere =>
    greatest other ⟨isItem, isStanding, isHere⟩⟩

theorem later_ne_none {held : Option Item} : later stamp held item ≠ none := by
  cases held with
  | none => exact some_ne_none item
  | some current =>
    unfold later
    dsimp only
    split <;> exact some_ne_none _

variable [DecidableEq Key] (key stamp stands)

def ingest (store : Key → Option Item) (item : Item) : Key → Option Item := fun place =>
  if key item = place then later stamp (sweep stands store place) item
  else sweep stands store place

def ingestAll (store : Key → Option Item) (items : List Item) : Key → Option Item :=
  items.foldl (ingest key stamp stands) store

structure Orderly (store : Key → Option Item) (items : List Item) : Prop where
  covered : ∀ item ∈ items, stands item = false →
    (∃ held, sweep stands store (key item) = some held ∧ stamp item ≤ stamp held) ∨
    ∃ other ∈ items, stands other ∧ key other = key item ∧ stamp item ≤ stamp other
  single : ∀ item ∈ items, ∀ rival ∈ items, stands item → stands rival →
    key rival = key item → stamp rival = stamp item → rival ≠ item →
    (∃ held, sweep stands store (key item) = some held ∧ stamp item ≤ stamp held) ∨
    ∃ other ∈ items, stands other ∧ key other = key item ∧ stamp item < stamp other

variable {key stamp stands}

theorem ingest_at (here : key item = place) :
    ingest key stamp stands store item place = later stamp (sweep stands store place) item :=
  if_pos here

theorem ingest_elsewhere (elsewhere : key item ≠ place) :
    ingest key stamp stands store item place = sweep stands store place := if_neg elsewhere

theorem ingestAll_cons (item : Item) (rest : List Item) :
    ingestAll key stamp stands store (item :: rest) =
      ingestAll key stamp stands (ingest key stamp stands store item) rest := rfl

theorem ingestAll_append (first second : List Item) :
    ingestAll key stamp stands store (first ++ second) =
      ingestAll key stamp stands (ingestAll key stamp stands store first) second :=
  foldl_append

/-! ### What is in the store -/

theorem sweep_ingest
    (isFound : sweep stands (ingest key stamp stands store item) place = some found) :
    sweep stands store place = some found ∨ (found = item ∧ key item = place) := by
  have stored := (stands_of_sweep isFound).1
  by_cases here : key item = place
  · rw [ingest_at here] at stored
    exact (later_eq_some stored).imp And.left (⟨·, here⟩)
  · rw [ingest_elsewhere here] at stored
    exact Or.inl stored

theorem sweep_ingestAll
    (isFound : sweep stands (ingestAll key stamp stands store items) place = some found) :
    sweep stands store place = some found ∨ (found ∈ items ∧ key found = place) := by
  induction items generalizing store with
  | nil => exact Or.inl isFound
  | cons item rest ih =>
    rcases ih isFound with before | ⟨member, here⟩
    · rcases sweep_ingest before with held | ⟨rfl, here⟩
      · exact Or.inl held
      · exact Or.inr ⟨mem_cons_self, here⟩
    · exact Or.inr ⟨mem_cons_of_mem _ member, here⟩

theorem ingestAll_of_held (isHeld : store place = some held) (standing : stands held)
    (behind : ∀ item ∈ items, key item = place → stamp item ≤ stamp held) :
    ingestAll key stamp stands store items place = some held := by
  induction items generalizing store with
  | nil => exact isHeld
  | cons item rest ih =>
    refine ih ?_ fun next member => behind next (mem_cons_of_mem _ member)
    by_cases here : key item = place
    · rw [ingest_at here, sweep_eq_some isHeld standing]
      exact later_of_le (behind item mem_cons_self here)
    · rw [ingest_elsewhere here, sweep_eq_some isHeld standing]

theorem ingestAll_elsewhere (nonempty : items ≠ []) (elsewhere : ∀ item ∈ items, key item ≠ place) :
    ingestAll key stamp stands store items place = sweep stands store place := by
  induction items generalizing store with
  | nil => exact absurd rfl nonempty
  | cons item rest ih =>
    have swept : ingest key stamp stands store item place = sweep stands store place :=
      ingest_elsewhere (elsewhere item mem_cons_self)
    by_cases last : rest = []
    · rw [last]
      exact swept
    · refine (ih last fun next member =>
        elsewhere next (mem_cons_of_mem _ member)).trans ?_
      rw [sweep, swept]
      exact congrFun sweep_sweep place

theorem ingest_ingest (item : Item) :
    ingest key stamp stands (ingest key stamp stands store item) item =
      ingest key stamp stands store item := by
  funext place
  by_cases here : key item = place
  · rw [ingest_at here]
    cases swept : sweep stands (ingest key stamp stands store item) place with
    | none =>
      cases stored : ingest key stamp stands store item place with
      | none =>
        rw [ingest_at here] at stored
        exact absurd stored later_ne_none
      | some found =>
        rw [ingest_at here] at stored
        rcases later_eq_some stored with ⟨held, _⟩ | rfl
        · have again := sweep_eq_some ((ingest_at here).trans stored) (stands_of_sweep held).2
          rw [swept] at again
          cases again
        · rfl
    | some found =>
      have stored := (stands_of_sweep swept).1
      rw [stored]
      rw [ingest_at here] at stored
      rcases later_eq_some stored with ⟨_, behind⟩ | rfl
      · exact later_of_le behind
      · exact later_of_le le_rfl
  · rw [ingest_elsewhere here, ingest_elsewhere here, sweep]
    rw [ingest_elsewhere here]
    exact congrFun sweep_sweep place

theorem ingestAll_of_alone (nonempty : items ≠ []) (alone : ∀ other ∈ items, other = item) :
    ingestAll key stamp stands store items = ingest key stamp stands store item := by
  induction items generalizing store with
  | nil => exact absurd rfl nonempty
  | cons head rest ih =>
    obtain rfl := alone head mem_cons_self
    by_cases last : rest = []
    · rw [last]
      rfl
    · exact (ih last fun other member =>
        alone other (mem_cons_of_mem _ member)).trans (ingest_ingest head)

theorem ingestAll_of_peak {peak : Item} (member : peak ∈ items) (standing : stands peak)
    (here : key peak = place)
    (ahead : ∀ held, sweep stands store place = some held → stamp held < stamp peak)
    (latest : ∀ item ∈ items, key item = place → stamp item ≤ stamp peak)
    (unique : ∀ item ∈ items, stands item → key item = place → stamp item = stamp peak →
      item = peak) : ingestAll key stamp stands store items place = some peak := by
  obtain ⟨before, after, rfl⟩ := append_of_mem member
  rw [ingestAll_append, ingestAll_cons]
  refine ingestAll_of_held ?_ standing fun item later => latest item
    (mem_append_right _ (mem_cons_of_mem _ later))
  rw [ingest_at here]
  cases swept : sweep stands (ingestAll key stamp stands store before) place with
  | none => rfl
  | some found =>
    rcases sweep_ingestAll swept with held | ⟨earlier, foundHere⟩
    · exact later_of_lt fun current same => ahead current (held.trans same)
    · have among := mem_append_left (peak :: after) earlier
      rcases (latest found among foundHere).lt_or_eq with less | tie
      · refine later_of_lt fun current same => ?_
        rwa [← some.inj same]
      · rw [unique found among (stands_of_sweep swept).2 foundHere tie]
        exact later_of_le le_rfl

end Store

/-! ### Order independence -/

section Orders

variable {Key Item : Type*} [DecidableEq Key]
variable {key : Item → Key} {stamp : Item → ℕ} {stands : Item → Bool}
variable {store : Key → Option Item} {place : Key} {items : List Item}

theorem Orderly.ingestAll_eq (orderly : Orderly key stamp stands store items)
    {first second : List Item} (firstSame : ∀ item, item ∈ first ↔ item ∈ items)
    (secondSame : ∀ item, item ∈ second ↔ item ∈ items) (nonempty : items ≠ []) :
    ingestAll key stamp stands store first = ingestAll key stamp stands store second := by
  suffices ∀ place, ∃ outcome, ∀ listed : List Item, (∀ item, item ∈ listed ↔ item ∈ items) →
      ingestAll key stamp stands store listed place = outcome by
    funext place
    obtain ⟨outcome, same⟩ := this place
    rw [same first firstSame, same second secondSame]
  intro place
  have listedNonempty {listed : List Item} (same : ∀ item, item ∈ listed ↔ item ∈ items) :
      listed ≠ [] := by
    obtain ⟨item, member⟩ := exists_mem_of_ne_nil items nonempty
    exact ne_nil_of_mem ((same item).mpr member)
  by_cases leads : ∃ item ∈ items, stands item ∧ key item = place ∧
      ∀ held, sweep stands store place = some held → stamp held < stamp item
  · -- a standing item that is ahead of the held one: the latest such item wins
    obtain ⟨item, member, standing, here, ahead⟩ := leads
    obtain ⟨peak, among, stand, isHere, greatest⟩ := exists_peak member standing here
    have peakAhead (held : Item) (swept : sweep stands store place = some held) :
        stamp held < stamp peak := (ahead held swept).trans_le (greatest item member standing here)
    refine ⟨some peak, fun listed same => ingestAll_of_peak ((same peak).mpr among) stand isHere
      peakAhead ?_ ?_⟩
    · intro other listedOther otherHere
      have isItem := (same other).mp listedOther
      by_cases otherStands : stands other
      · exact greatest other isItem otherStands otherHere
      · rcases orderly.covered other isItem (Bool.eq_false_iff.mpr otherStands) with
          ⟨held, swept, behind⟩ | ⟨cover, isCover, coverStands, coverHere, behind⟩
        · rw [otherHere] at swept
          exact behind.trans (peakAhead held swept).le
        · exact behind.trans (greatest cover isCover coverStands (coverHere.trans otherHere))
    · intro other listedOther otherStands otherHere tie
      by_contra different
      rcases orderly.single peak among other ((same other).mp listedOther) stand otherStands
        (otherHere.trans isHere.symm) tie different with
        ⟨held, swept, behind⟩ | ⟨beyond, isBeyond, beyondStands, beyondHere, further⟩
      · rw [isHere] at swept
        exact absurd behind (not_le.mpr (peakAhead held swept))
      · exact absurd (greatest beyond isBeyond beyondStands (beyondHere.trans isHere))
          (not_le.mpr further)
  · push Not at leads
    by_cases offered : ∃ item ∈ items, key item = place
    · -- no standing item is ahead of the held one, which therefore stays
      have behindHeld (item : Item) (member : item ∈ items) (here : key item = place) :
          ∃ held, sweep stands store place = some held ∧ stamp item ≤ stamp held := by
        by_cases standing : stands item
        · exact leads item member standing here
        · rcases orderly.covered item member (Bool.eq_false_iff.mpr standing) with
            ⟨held, swept, behind⟩ | ⟨cover, isCover, coverStands, coverHere, behind⟩
          · rw [here] at swept
            exact ⟨held, swept, behind⟩
          · obtain ⟨held, swept, further⟩ :=
              leads cover isCover coverStands (coverHere.trans here)
            exact ⟨held, swept, behind.trans further⟩
      obtain ⟨item, member, here⟩ := offered
      obtain ⟨held, swept, _⟩ := behindHeld item member here
      refine ⟨some held, fun listed same => ingestAll_of_held (stands_of_sweep swept).1
        (stands_of_sweep swept).2 ?_⟩
      intro other listedOther otherHere
      obtain ⟨again, sweptAgain, behind⟩ := behindHeld other ((same other).mp listedOther) otherHere
      rw [swept] at sweptAgain
      rwa [some.inj sweptAgain]
    · push Not at offered
      exact ⟨_, fun listed same => ingestAll_elsewhere (listedNonempty same)
        fun item member => offered item ((same item).mp member)⟩

theorem covered_of_same {item other : Item} (member : item ∈ items) (otherMember : other ∈ items)
    (different : other ≠ item) (falls : stands item = false)
    (same : ∀ first second : List Item, (∀ item, item ∈ first ↔ item ∈ items) →
      (∀ item, item ∈ second ↔ item ∈ items) →
      ingestAll key stamp stands store first = ingestAll key stamp stands store second) :
    (∃ held, sweep stands store (key item) = some held ∧ stamp item ≤ stamp held) ∨
    ∃ cover ∈ items, stands cover ∧ key cover = key item ∧ stamp item ≤ stamp cover := by
  by_contra uncovered
  push Not at uncovered
  have last : ingestAll key stamp stands store (items ++ [item]) (key item) = some item := by
    rw [ingestAll_append]
    refine (ingest_at rfl).trans (later_of_lt fun current swept => ?_)
    rcases sweep_ingestAll swept with held | ⟨isItem, here⟩
    · exact uncovered.1 current held
    · exact uncovered.2 current isItem (stands_of_sweep swept).2 here
  have dropped : sweep stands (ingestAll key stamp stands store (items ++ [item])) (key item) =
      none := by
    simp [sweep, last, falls]
  have followed : ingestAll key stamp stands store (items ++ [item] ++ [other]) (key item) ≠
      some item := by
    rw [ingestAll_append]
    change ingest key stamp stands _ other (key item) ≠ some item
    by_cases here : key other = key item
    · rw [ingest_at here, dropped]
      exact fun equal => different (some.inj equal)
    · rw [ingest_elsewhere here, dropped]
      exact some_ne_none item ∘ Eq.symm
  refine followed ((congrFun (same _ _ ?_ ?_) (key item)).trans last)
  · intro listed
    simp only [mem_append, mem_singleton]
    exact ⟨fun cases => cases.elim (fun inner => inner.elim id (· ▸ member)) (· ▸ otherMember),
      fun isItem => Or.inl (Or.inl isItem)⟩
  · intro listed
    simp only [mem_append, mem_singleton]
    exact ⟨fun cases => cases.elim id (· ▸ member), Or.inl⟩

theorem ingestAll_cons_of_peak {item : Item} (standing : stands item)
    (ahead : ∀ held, sweep stands store (key item) = some held → stamp held < stamp item)
    (latest : ∀ other ∈ items, key other = key item → stamp other ≤ stamp item) :
    ingestAll key stamp stands store (item :: items) (key item) = some item := by
  rw [ingestAll_cons]
  exact ingestAll_of_held ((ingest_at rfl).trans (later_of_lt ahead)) standing latest

theorem ingestAll_same_iff :
    (∀ first second : List Item, (∀ item, item ∈ first ↔ item ∈ items) →
      (∀ item, item ∈ second ↔ item ∈ items) →
      ingestAll key stamp stands store first = ingestAll key stamp stands store second) ↔
    (∀ item ∈ items, ∀ other ∈ items, other = item) ∨
      Orderly key stamp stands store items := by
  constructor
  · intro same
    by_cases alone : ∀ item ∈ items, ∀ other ∈ items, other = item
    · exact Or.inl alone
    push Not at alone
    obtain ⟨one, isOne, two, isTwo, different⟩ := alone
    have covered (item : Item) (member : item ∈ items) (falls : stands item = false) :
        (∃ held, sweep stands store (key item) = some held ∧ stamp item ≤ stamp held) ∨
        ∃ other ∈ items, stands other ∧ key other = key item ∧ stamp item ≤ stamp other := by
      by_cases isOther : two = item
      · exact covered_of_same member isOne (fun same => different (isOther.trans same.symm)) falls
          same
      · exact covered_of_same member isTwo isOther falls same
    refine Or.inr ⟨covered, ?_⟩
    intro item member rival rivalMember standing rivalStands here tie distinct
    by_contra unbeaten
    push Not at unbeaten
    have latest (other : Item) (isItem : other ∈ items) (otherHere : key other = key item) :
        stamp other ≤ stamp item := by
      by_cases otherStands : stands other
      · exact unbeaten.2 other isItem otherStands otherHere
      · rcases covered other isItem (Bool.eq_false_iff.mpr otherStands) with
          ⟨held, swept, behind⟩ | ⟨cover, isCover, coverStands, coverHere, behind⟩
        · rw [otherHere] at swept
          exact behind.trans (unbeaten.1 held swept).le
        · exact behind.trans (unbeaten.2 cover isCover coverStands (coverHere.trans otherHere))
    have first : ingestAll key stamp stands store (item :: items) (key item) = some item :=
      ingestAll_cons_of_peak standing unbeaten.1 latest
    have second : ingestAll key stamp stands store (rival :: items) (key rival) = some rival := by
      refine ingestAll_cons_of_peak rivalStands ?_ ?_
      · rw [here, tie]
        exact unbeaten.1
      · rw [here, tie]
        exact latest
    rw [here] at second
    have equal := congrFun (same (item :: items) (rival :: items)
      (fun other => by simp only [mem_cons, or_iff_right_iff_imp]; rintro rfl; exact member)
      (fun other => by
        simp only [mem_cons, or_iff_right_iff_imp]; rintro rfl; exact rivalMember)) (key item)
    rw [first, second] at equal
    exact distinct (some.inj equal).symm
  · intro condition first second firstSame secondSame
    by_cases empty : items = []
    · subst empty
      have nothing {listed : List Item} (isListed : ∀ item, item ∈ listed ↔ item ∈ []) :
          listed = [] := eq_nil_iff_forall_not_mem.mpr fun item member =>
        not_mem_nil ((isListed item).mp member)
      rw [nothing firstSame, nothing secondSame]
    rcases condition with alone | orderly
    · obtain ⟨item, member⟩ := exists_mem_of_ne_nil items empty
      have single {listed : List Item} (isListed : ∀ item, item ∈ listed ↔ item ∈ items) :
          ingestAll key stamp stands store listed = ingest key stamp stands store item :=
        ingestAll_of_alone (ne_nil_of_mem ((isListed item).mpr member))
          fun other isOther => alone item member other ((isListed other).mp isOther)
      rw [single firstSame, single secondSame]
    · exact orderly.ingestAll_eq firstSame secondSame empty

end Orders

end LatestWins
