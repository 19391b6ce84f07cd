/-
  File:      CoreEx/Lib/Statechart.lean
  Subject:   Statecharts with one level of nesting, sent one event after the other.

  A state is an innermost one; an event that it does not know itself goes to the state around it. An
  event that neither knows changes nothing. Entering a state asks for actions.

  * `Statechart`, `next`, `transition` -- one event;
  * `Closed` -- a set of states that some events do not lead out of;
  * **`Closed.transition`** -- one event keeps it, and asks only for what its states ask for.
-/
import Mathlib.Logic.Relation

namespace CoreEx

/-- A statechart with states `σ`, events `ε` and actions `α`. -/
structure Statechart (σ ε α : Type) where
  initial : σ
  /-- Where an event leads by the state itself. -/
  own : σ → ε → Option σ
  /-- Where it leads by the state around. -/
  enclosing : σ → ε → Option σ
  onEntry : σ → List α

namespace Statechart

variable {σ ε α : Type} (m : Statechart σ ε α)

/-- The state an event leads to. -/
def next (s : σ) (e : ε) : Option σ := (m.own s e).or (m.enclosing s e)

/-- The state after an event, and the actions it asks for. -/
def transition (s : σ) (e : ε) : σ × List α :=
  match m.next s e with
  | some t => (t, m.onEntry t)
  | none => (s, [])

variable {m} {s t : σ} {e : ε}

theorem transition_of_next (h : m.next s e = some t) : m.transition s e = (t, m.onEntry t) := by
  unfold transition
  rw [h]

theorem transition_of_none (h : m.next s e = none) : m.transition s e = (s, []) := by
  unfold transition
  rw [h]

/-- **What an event does**: nothing, or it enters a state. -/
theorem transition_cases (m : Statechart σ ε α) (s : σ) (e : ε) :
    m.transition s e = (s, []) ∨
      ∃ t, m.next s e = some t ∧ m.transition s e = (t, m.onEntry t) := by
  cases h : m.next s e with
  | none => exact Or.inl (transition_of_none h)
  | some t => exact Or.inr ⟨t, rfl, transition_of_next h⟩

/-- The events `E` do not lead out of the states `P`. -/
def Closed (m : Statechart σ ε α) (P : σ → Prop) (E : ε → Prop) : Prop :=
  ∀ s e t, P s → E e → m.next s e = some t → P t

/-- **A closed set of states** is kept by an event. -/
theorem Closed.transition {P : σ → Prop} {E : ε → Prop} (h : m.Closed P E) (hs : P s) (he : E e) :
    P (m.transition s e).1 := by
  rcases transition_cases m s e with heq | ⟨t, hnext, heq⟩
  · rw [heq]
    exact hs
  · rw [heq]
    exact h s e t hs he hnext

end Statechart

end CoreEx
