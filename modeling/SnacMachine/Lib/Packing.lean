import Mathlib.Tactic.Ring

/-!
# Greedy packing

A loop that puts items into parts one after the other: an item goes into the current part, or the
current part is closed and the item starts a new one. `Run` lists the items so far, the closed parts
and the current one; what holds of a part after every addition holds of all parts (`Run.good`), and
the parts hold the items in their order (`Run.contents`).
-/

namespace Packing

variable {P X Y : Type} {fresh : P} {Add : P → X → P → Prop}

/-- A packing loop after some items: `Add p x p'` says that the part `p` with the item `x` is `p'`,
and every part starts as `fresh`. -/
inductive Run (fresh : P) (Add : P → X → P → Prop) : List X → List P → P → Prop
  | nil : Run fresh Add [] [] fresh
  | extend {xs : List X} {out : List P} {p p' : P} {x : X} (h : Run fresh Add xs out p)
    (hadd : Add p x p') : Run fresh Add (xs ++ [x]) out p'
  | close {xs : List X} {out : List P} {p p' : P} {x : X} (h : Run fresh Add xs out p)
    (hp : p ≠ fresh) (hadd : Add fresh x p') : Run fresh Add (xs ++ [x]) (out ++ [p]) p'

/-- What every addition establishes holds of all parts, but for a current part without an item. By
induction on the run: a part is closed only with an item in it. -/
theorem Run.good {Good : P → Prop}
    (hgood : ∀ {p x p'}, p = fresh ∨ Good p → Add p x p' → Good p') {xs : List X} {out : List P}
    {p : P} (h : Run fresh Add xs out p) : (∀ q ∈ out, Good q) ∧ (p = fresh ∨ Good p) := by
  induction h with
  | nil => exact ⟨fun q hq => absurd hq List.not_mem_nil, .inl rfl⟩
  | extend _ hadd ih => exact ⟨ih.1, .inr (hgood ih.2 hadd)⟩
  | close _ hp hadd ih =>
    refine ⟨fun q hq => ?_, .inr (hgood (.inl rfl) hadd)⟩
    rcases List.mem_append.1 hq with hq | hq
    · exact ih.1 q hq
    · rw [List.mem_singleton.1 hq]
      exact ih.2.resolve_left hp

/-- Nothing is lost, repeated or moved. By induction on the run: an item is appended to the current
part, or to a new one behind the closed parts. -/
theorem Run.contents (contents : P → List Y) (c : X → List Y) {Good : P → Prop}
    (hgood : ∀ {p x p'}, p = fresh ∨ Good p → Add p x p' → Good p') (hfresh : contents fresh = [])
    (hadd : ∀ {p x p'}, p = fresh ∨ Good p → Add p x p' → contents p' = contents p ++ c x)
    {xs : List X} {out : List P} {p : P} (h : Run fresh Add xs out p) :
    out.flatMap contents ++ contents p = xs.flatMap c := by
  induction h with
  | nil => rw [hfresh]; rfl
  | extend h ha ih =>
    rw [hadd (h.good hgood).2 ha, ← List.append_assoc, ih, List.flatMap_append,
      List.flatMap_singleton]
  | close _ _ ha ih =>
    rw [hadd (.inl rfl) ha, hfresh, List.nil_append, List.flatMap_append,
      List.flatMap_singleton, ih, List.flatMap_append, List.flatMap_singleton]

end Packing
