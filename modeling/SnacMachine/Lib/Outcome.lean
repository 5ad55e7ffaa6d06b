import SnacMachine.Lib.Act

/-!
# What a computation may end with

`Act.Outcome m s Q F` says that the computation `m` from the state `s` ends with a result and a
state that satisfy `Q`, or fails with an error and a state that satisfy `F`. The rules go through a
computation from its start to its end, one step of the computation at a time.
-/

namespace Act

variable {S E α β : Type} {s : S} {Q Q' : α → S → Prop} {F F' : E → S → Prop}

/-- What holds of the result and the state, or of the error and the state. -/
def Outcome (m : Act S E α) (s : S) (Q : α → S → Prop) (F : E → S → Prop) : Prop :=
  match (m s).1 with
  | .ok a => Q a (m s).2
  | .error e => F e (m s).2

/-- A result without an effect: what is asked of it must hold in the state as it is. -/
theorem outcome_pure (a : α) : Outcome (pure a : Act S E α) s Q F ↔ Q a s := Iff.rfl

/-- What a computation ends with, if its result is known. -/
theorem outcome_of_ok {m : Act S E α} {a : α} {t : S} (h : m s = (.ok a, t)) :
    Outcome m s Q F ↔ Q a t := by
  unfold Outcome
  rw [h]

/-- What a computation ends with, if its error is known. -/
theorem outcome_of_error {m : Act S E α} {e : E} {t : S} (h : m s = (.error e, t)) :
    Outcome m s Q F ↔ F e t := by
  unfold Outcome
  rw [h]

/-- The rule for two computations one after the other. -/
theorem Outcome.bind {m : Act S E α} {f : α → Act S E β} {T : β → S → Prop} (hm : Outcome m s Q F)
    (hf : ∀ a t, Q a t → Outcome (f a) t T F) : Outcome (m >>= f) s T F := by
  cases hrun : m s with
  | mk r t =>
    cases r with
    | ok a =>
      have hnext := hf a t ((outcome_of_ok hrun).1 hm)
      unfold Outcome at hnext ⊢
      rwa [bind_ok hrun]
    | error e => exact (outcome_of_error (bind_error hrun)).2 ((outcome_of_error hrun).1 hm)

/-- The rule of consequence, for results and for errors. -/
theorem Outcome.mono {m : Act S E α} (h : Outcome m s Q F) (hQ : ∀ a t, Q a t → Q' a t)
    (hF : ∀ e t, F e t → F' e t) : Outcome m s Q' F' := by
  cases hrun : m s with
  | mk r t =>
    cases r with
    | ok a => exact (outcome_of_ok hrun).2 (hQ a t ((outcome_of_ok hrun).1 h))
    | error e => exact (outcome_of_error hrun).2 (hF e t ((outcome_of_error hrun).1 h))

/-- A choice ends as its branches do, each under its own condition. -/
theorem Outcome.branch {p : Prop} [Decidable p] {m m' : Act S E α} (hm : p → Outcome m s Q F)
    (hm' : ¬ p → Outcome m' s Q F) : Outcome (if p then m else m') s Q F := by
  split
  · next h => exact hm h
  · next h => exact hm' h

/-- What holds of the state whatever the outcome is. -/
theorem Outcome.always {m : Act S E α} {I : S → Prop} (h : Outcome m s (fun _ => I) fun _ => I) :
    I (m s).2 := by
  cases hrun : m s with
  | mk r t =>
    cases r with
    | ok a => exact (outcome_of_ok hrun).1 h
    | error e => exact (outcome_of_error hrun).1 h

/-- Two facts about one computation. -/
theorem Outcome.and {m : Act S E α} (h : Outcome m s Q F) (h' : Outcome m s Q' F') :
    Outcome m s (fun a t => Q a t ∧ Q' a t) fun e t => F e t ∧ F' e t := by
  cases hrun : m s with
  | mk r t =>
    cases r with
    | ok a => exact (outcome_of_ok hrun).2 ⟨(outcome_of_ok hrun).1 h, (outcome_of_ok hrun).1 h'⟩
    | error e =>
      exact (outcome_of_error hrun).2 ⟨(outcome_of_error hrun).1 h, (outcome_of_error hrun).1 h'⟩

end Act
