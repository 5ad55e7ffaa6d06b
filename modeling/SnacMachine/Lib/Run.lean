import Mathlib.Tactic.Common

/-!
# Runs of clocked machines

A `Machine` performs operations, each at its own moment and under a condition that its callers
promise, and answers each of them. A `Machine.Run` is a sequence of operations at nondecreasing
moments, with the answers it got; what holds of every run is proved by `Run.invariant` (a property
of states kept by every step) or by `Run.history` (a property that also reads the events so far).
-/

/-- A machine with states `S`, operations `O` and answers `R`. -/
structure Machine (S O R : Type) where
  /-- The state after an operation and its answer. -/
  step : S → O → S × R
  /-- When an operation is performed. -/
  time : O → Nat
  /-- What the caller of an operation promises about the state and the operation. -/
  legal : S → O → Prop

namespace Machine

variable {S O R : Type}

/-- The runs from state `s₀` at moment `t₀`: the events, oldest first, the state reached and the
moment of the last operation. -/
inductive Run (m : Machine S O R) (s₀ : S) (t₀ : Nat) : List (O × R) → S → Nat → Prop
  | nil : Run m s₀ t₀ [] s₀ t₀
  | snoc {es : List (O × R)} {s : S} {t : Nat} (o : O) (run : Run m s₀ t₀ es s t)
      (later : t ≤ m.time o) (legal : m.legal s o) :
      Run m s₀ t₀ (es ++ [(o, (m.step s o).2)]) (m.step s o).1 (m.time o)

variable {m : Machine S O R} {s₀ s : S} {t₀ t : Nat} {es : List (O × R)}

/-- A run goes on with an operation whose outcome is known. -/
theorem Run.step {o : O} {s' : S} {r : R} (h : m.Run s₀ t₀ es s t) (hstep : m.step s o = (s', r))
    (later : t ≤ m.time o) (legal : m.legal s o) :
    m.Run s₀ t₀ (es ++ [(o, r)]) s' (m.time o) := by
  have := h.snoc o later legal
  rw [hstep] at this
  exact this

/-- A property that also reads the events so far, kept by every step, holds after every run. -/
theorem Run.history {I : List (O × R) → S → Nat → Prop} (start : I [] s₀ t₀)
    (step : ∀ es s t o, m.Run s₀ t₀ es s t → I es s t → t ≤ m.time o → m.legal s o →
      I (es ++ [(o, (m.step s o).2)]) (m.step s o).1 (m.time o))
    (h : m.Run s₀ t₀ es s t) : I es s t := by
  induction h with
  | nil => exact start
  | snoc o run later legal ih => exact step _ _ _ o run ih later legal

/-- A property of states and moments kept by every step holds after every run. -/
theorem Run.invariant {I : S → Nat → Prop} (start : I s₀ t₀)
    (step : ∀ s t o, I s t → t ≤ m.time o → m.legal s o → I (m.step s o).1 (m.time o))
    (h : m.Run s₀ t₀ es s t) : I s t :=
  h.history (I := fun _ s t => I s t) start fun _ s t o _ => step s t o

end Machine
