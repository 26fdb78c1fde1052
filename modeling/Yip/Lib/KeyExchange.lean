/-
This file is the theory of two parties that replace the session they share.
-/

import Mathlib.Data.Set.Insert
import Mathlib.Logic.Function.Basic

namespace KeyExchange

/-- The session in use, the one offered and the round begun. -/
@[ext]
structure Position (Session Round : Type*) where
  current : Session
  next : Option Session
  round : Option Round

structure Party (Session Round : Type*) extends Position Session Round where
  used : Set Session
  brought : Set Session

def Party.become {Session Round : Type*} (party : Party Session Round)
    (moved : Position Session Round) : Party Session Round :=
  { moved with
    used := insert moved.current party.used
    brought := {session | moved.next = some session} ∪ party.brought }

variable {Session Round : Type*} (mirror : Session → Session) (answers : Session → Round → Prop)

inductive Move (party other : Party Session Round) : Position Session Round → Prop where
  | rests : Move party other party.toPosition
  | schedules (round : Option Round)
      (fresh : ∀ begun, round = some begun → party.round ≠ some begun →
        ∀ session ∈ other.brought, ¬answers session begun) :
    Move party other { party.toPosition with round := round }
  | takes (session : Session) (unused : mirror session ∉ other.used)
      (apart : mirror session ∉ other.brought) :
    Move party other { party.toPosition with next := some session }
  | follows (session : Session) (held : party.next = some session)
      (sent : mirror session ∈ other.used ∨ mirror session ∈ other.brought) :
    Move party other { party.toPosition with current := session, next := none }
  | switches (round : Round) (session : Session) (begun : party.round = some round)
      (answered : answers (mirror session) round) (brought : mirror session ∈ other.brought)
      (uncrossed : ∀ held, party.next = some held →
        other.round = none ∧ other.current ≠ mirror held) :
    Move party other { party.toPosition with current := session, round := none }

structure Steady (party other : Party Session Round) : Prop where
  used : party.current ∈ party.used
  brought : ∀ session, party.next = some session → session ∈ party.brought
  apart : ∀ session ∈ party.brought, mirror session ∉ other.brought
  waits : ∀ session, party.next = some session → mirror session ∈ other.used →
    other.current = mirror session
  single : ∀ session held, party.next = some session → mirror session ∈ other.used →
    other.next = some held → mirror held ∉ party.used
  pending : ∀ round session, party.round = some round → session ∈ other.brought →
    answers session round → ∃ held, other.next = some held ∧ mirror held ∉ party.used

/-- The parties agree, unless one has an offer open. -/
structure Sound (party other : Party Session Round) : Prop where
  near : Steady mirror answers party other
  far : Steady mirror answers other party
  agrees : mirror party.current = other.current ∨ party.next ≠ none ∨ other.next ≠ none

variable {mirror answers} {party other : Party Session Round}

theorem Sound.symm (involutive : Function.Involutive mirror)
    (sound : Sound mirror answers party other) : Sound mirror answers other party where
  near := sound.far
  far := sound.near
  agrees := sound.agrees.imp (fun same => by rw [← same, involutive]) Or.symm

theorem Sound.agreement (sound : Sound mirror answers party other) (near : party.next = none)
    (far : other.next = none) : mirror party.current = other.current :=
  sound.agrees.resolve_right fun held => held.elim (· near) (· far)

theorem Sound.schedules (sound : Sound mirror answers party other) {round : Option Round}
    (fresh : ∀ begun, round = some begun → party.round ≠ some begun →
      ∀ session ∈ other.brought, ¬answers session begun) :
    Sound mirror answers { party with round := round } other := by
  refine ⟨{ sound.near with pending := ?_ }, { sound.far with }, sound.agrees⟩
  intro begun session isBegun brought answered
  by_cases before : party.round = some begun
  · exact sound.near.pending begun session before brought answered
  · exact absurd answered (fresh begun isBegun before session brought)

theorem Sound.takes (involutive : Function.Involutive mirror)
    (sound : Sound mirror answers party other) {session : Session}
    (unused : mirror session ∉ other.used) (apart : mirror session ∉ other.brought) :
    Sound mirror answers
      { party with next := some session, brought := insert session party.brought } other := by
  refine ⟨{ sound.near with brought := ?_, apart := ?_, waits := ?_, single := ?_ },
    { sound.far with apart := ?_, single := ?_, pending := ?_ }, ?_⟩
  · rintro held ⟨⟩
    exact Set.mem_insert session _
  · rintro held (rfl | before)
    · exact apart
    · exact sound.near.apart held before
  · rintro held ⟨⟩ isUsed
    exact absurd isUsed unused
  · rintro held next ⟨⟩ isUsed
    exact absurd isUsed unused
  · rintro held brought (same | before)
    · rw [← same, involutive] at apart
      exact apart brought
    · exact sound.far.apart held brought before
  · rintro held next _ _ ⟨⟩
    exact unused
  · exact fun _ _ _ _ _ => ⟨session, rfl, unused⟩
  · exact Or.inr (Or.inl (Option.some_ne_none session))

theorem Sound.follows (sound : Sound mirror answers party other) {session : Session}
    (held : party.next = some session)
    (sent : mirror session ∈ other.used ∨ mirror session ∈ other.brought) :
    Sound mirror answers
      { party with current := session, next := none, used := insert session party.used } other := by
  have used : mirror session ∈ other.used :=
    sent.resolve_right (sound.near.apart session (sound.near.brought session held))
  have there := sound.near.waits session held used
  refine ⟨⟨Set.mem_insert session _, nofun, sound.near.apart, nofun, nofun, ?_⟩,
    { sound.far with waits := ?_, single := ?_, pending := ?_ }, Or.inl there.symm⟩
  · -- the session that answers the round was brought to the other party, not to this one
    intro round answer begun isBrought answered
    obtain ⟨next, isNext, unused⟩ := sound.near.pending round answer begun isBrought answered
    refine ⟨next, isNext, ?_⟩
    rintro (same | before)
    · have apart := sound.far.apart next (sound.far.brought next isNext)
      rw [same] at apart
      exact apart (sound.near.brought session held)
    · exact unused before
  · rintro waiting isWaiting (same | before)
    · exact same.symm
    · exact absurd before (sound.near.single session waiting held used isWaiting)
  · rintro waiting next _ _ ⟨⟩
  · -- an answered round of the other party would have kept it from using the session
    intro round brought begun isBrought answered
    obtain ⟨next, isNext, unused⟩ := sound.far.pending round brought begun isBrought answered
    rw [held] at isNext
    obtain rfl := Option.some.inj isNext
    exact absurd used unused

theorem Sound.switches (sound : Sound mirror answers party other) {round : Round}
    {session : Session} (begun : party.round = some round)
    (answered : answers (mirror session) round) (brought : mirror session ∈ other.brought)
    (uncrossed : ∀ held, party.next = some held →
      other.round = none ∧ other.current ≠ mirror held) :
    Sound mirror answers
      { party with current := session, round := none, used := insert session party.used }
        other := by
  obtain ⟨held, isHeld, unused⟩ := sound.near.pending round _ begun brought answered
  have untouched (waiting : Session) (isWaiting : party.next = some waiting) :
      mirror waiting ∉ other.used := fun isUsed =>
    (uncrossed waiting isWaiting).2 (sound.near.waits waiting isWaiting isUsed)
  refine ⟨{ sound.near with used := ?_, single := ?_, pending := nofun },
    { sound.far with waits := ?_, single := ?_, pending := ?_ },
    Or.inr (Or.inr (isHeld ▸ Option.some_ne_none held))⟩
  · exact Set.mem_insert session _
  · intro waiting next isWaiting isUsed
    exact absurd isUsed (untouched waiting isWaiting)
  · -- the other party was brought this session last, or one that was not used
    rintro waiting isWaiting (same | before)
    · exact same.symm
    · rw [isHeld] at isWaiting
      obtain rfl := Option.some.inj isWaiting
      exact absurd before unused
  · intro waiting next _ _ isNext
    exact untouched next isNext
  · intro begun answer isBegun isBrought answered
    obtain ⟨next, isNext, _⟩ := sound.far.pending begun answer isBegun isBrought answered
    rw [(uncrossed next isNext).1] at isBegun
    cases isBegun

theorem Sound.move (involutive : Function.Involutive mirror)
    (sound : Sound mirror answers party other) {moved : Position Session Round}
    (move : Move mirror answers party other moved) :
    Sound mirror answers (party.become moved) other := by
  have used : insert party.current party.used = party.used :=
    Set.insert_eq_of_mem sound.near.used
  have brought : {session | party.next = some session} ∪ party.brought = party.brought :=
    Set.union_eq_self_of_subset_left sound.near.brought
  have nothing : {session : Session | none = some session} ∪ party.brought = party.brought :=
    Set.union_eq_self_of_subset_left nofun
  cases move with
  | rests =>
    simp only [Party.become, used, brought]
    exact sound
  | schedules round fresh =>
    simp only [Party.become, used, brought]
    exact sound.schedules fresh
  | takes session unused apart =>
    have added : {held | some session = some held} ∪ party.brought =
        insert session party.brought := by
      ext held
      simp [eq_comm]
    simp only [Party.become, used, added]
    exact sound.takes involutive unused apart
  | follows session held sent =>
    simp only [Party.become, nothing]
    exact sound.follows held sent
  | switches round session begun answered isBrought uncrossed =>
    simp only [Party.become, brought]
    exact sound.switches begun answered isBrought uncrossed

end KeyExchange
