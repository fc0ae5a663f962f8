import Mathlib.Data.List.Basic

/-!
# Automata with guards

An automaton whose step is a partial function: it gives the state after a move, or nothing when the
move cannot be made. The function can be evaluated, so a run is checked by playing its moves
(`Automaton.run`), and the guards of the plays are those of the proofs. What every step keeps holds
in every state that can be reached (`Automaton.Reachable.invariant`). What only certain moves bring
about, and none undoes, has come about exactly in the runs that make such a move
(`Automaton.run_iff_meets`).
-/

set_option autoImplicit false
set_option relaxedAutoImplicit false

namespace KoboldKhat.Library

/-- An automaton: the states it can begin in, and the state after each move that can be made. -/
structure Automaton (State Move : Type) where
  /-- The automaton can begin in the state. -/
  initial : State → Prop
  /-- The state after a move, if the move can be made. -/
  step : State → Move → Option State

namespace Automaton

variable {State Move : Type} {automaton : Automaton State Move} {first middle last : State}
  {moves later : List Move} {move : Move}

/-- The state after moves that are made one after the other, if all of them can be. -/
def run (automaton : Automaton State Move) (moves : List Move) (state : State) : Option State :=
  moves.foldlM automaton.step state

/-- The state comes after some moves from a state in which the automaton can begin. -/
def Reachable (automaton : Automaton State Move) (state : State) : Prop :=
  ∃ first moves, automaton.initial first ∧ automaton.run moves first = some state

/-- Moves that are made in two goes. -/
theorem run_append (hearlier : automaton.run moves first = some middle)
    (hlater : automaton.run later middle = some last) :
    automaton.run (moves ++ later) first = some last := by
  unfold run at hearlier hlater ⊢
  rw [List.foldlM_append, hearlier]
  exact hlater

/-- A run of one move is a step. -/
theorem run_singleton (hstep : automaton.step first move = some last) :
    automaton.run [move] first = some last := by
  rw [run, List.foldlM_cons, hstep]
  rfl

/-- Moves with one more. -/
theorem run_concat (hearlier : automaton.run moves first = some middle)
    (hstep : automaton.step middle move = some last) :
    automaton.run (moves ++ [move]) first = some last :=
  run_append hearlier (run_singleton hstep)

/-- What every step keeps, every run keeps. -/
theorem run_invariant {invariant : State → Prop}
    (hstep : ∀ {state after move}, invariant state → automaton.step state move = some after →
      invariant after)
    (hrun : automaton.run moves first = some last) (hfirst : invariant first) : invariant last := by
  induction moves generalizing first with
  | nil =>
    obtain rfl : first = last := Option.some.inj hrun
    exact hfirst
  | cons move moves ih =>
    rw [run, List.foldlM_cons] at hrun
    cases hmiddle : automaton.step first move with
    | none =>
      rw [hmiddle] at hrun
      cases hrun
    | some middle =>
      rw [hmiddle] at hrun
      exact ih hrun (hstep hfirst hmiddle)

/-- One of the moves meets the condition in the state in which it is made. -/
def Meets (automaton : Automaton State Move) (condition : State → Move → Prop)
    (moves : List Move) (first : State) : Prop :=
  ∃ earlier move later middle, moves = earlier ++ move :: later ∧
    automaton.run earlier first = some middle ∧ condition middle move

/-- Where no move is made, none meets the condition. -/
theorem not_meets_nil (condition : State → Move → Prop) (first : State) :
    ¬ automaton.Meets condition [] first := by
  rintro ⟨earlier, move, later, middle, hmoves, -, -⟩
  exact List.append_ne_nil_of_right_ne_nil earlier (List.cons_ne_nil move later) hmoves.symm

/-- The first move meets the condition, or one of those after it does. -/
theorem meets_cons_iff {condition : State → Move → Prop}
    (hstep : automaton.step first move = some middle) :
    automaton.Meets condition (move :: moves) first ↔
      condition first move ∨ automaton.Meets condition moves middle := by
  constructor
  · rintro ⟨earlier, met, later, between, hmoves, hrun, hmeets⟩
    cases earlier with
    | nil =>
      obtain ⟨rfl, -⟩ := List.cons.inj hmoves
      obtain rfl : first = between := Option.some.inj hrun
      exact Or.inl hmeets
    | cons head earlier =>
      obtain ⟨rfl, rfl⟩ := List.cons.inj hmoves
      rw [run, List.foldlM_cons, hstep] at hrun
      exact Or.inr ⟨earlier, met, later, between, rfl, hrun, hmeets⟩
  · rintro (hfirst | ⟨earlier, met, later, between, rfl, hrun, hmeets⟩)
    · exact ⟨[], move, moves, first, rfl, rfl, hfirst⟩
    · exact ⟨move :: earlier, met, later, between, rfl, run_append (run_singleton hstep) hrun,
        hmeets⟩

/-- What a step leaves true exactly if it was true before or the move meets a condition, is true
after a run exactly if it was true at first or some move met the condition. -/
theorem run_iff_meets {invariant fact : State → Prop} {condition : State → Move → Prop}
    (hkept : ∀ {state after move}, invariant state → automaton.step state move = some after →
      invariant after)
    (hstep : ∀ {state after move}, invariant state → automaton.step state move = some after →
      (fact after ↔ fact state ∨ condition state move))
    (hrun : automaton.run moves first = some last) (hfirst : invariant first) :
    fact last ↔ fact first ∨ automaton.Meets condition moves first := by
  induction moves generalizing first with
  | nil =>
    obtain rfl : first = last := Option.some.inj hrun
    exact (or_iff_left (not_meets_nil condition first)).symm
  | cons move moves ih =>
    rw [run, List.foldlM_cons] at hrun
    cases hmiddle : automaton.step first move with
    | none =>
      rw [hmiddle] at hrun
      cases hrun
    | some middle =>
      rw [hmiddle] at hrun
      rw [ih hrun (hkept hfirst hmiddle), hstep hfirst hmiddle, meets_cons_iff hmiddle, or_assoc]

/-- What every step keeps holds in every state that can be reached. -/
theorem Reachable.invariant {state : State} (hreachable : automaton.Reachable state)
    {invariant : State → Prop} (hfirst : ∀ {first}, automaton.initial first → invariant first)
    (hstep : ∀ {state after move}, invariant state → automaton.step state move = some after →
      invariant after) : invariant state := by
  obtain ⟨first, moves, hinitial, hrun⟩ := hreachable
  exact run_invariant hstep hrun (hfirst hinitial)

end Automaton

end KoboldKhat.Library
