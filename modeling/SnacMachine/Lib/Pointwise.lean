import Mathlib.Data.List.Forall2
import Mathlib.Tactic.Ring

/-!
# Lists rewritten pointwise

What a list keeps of another when each of its members stands in a relation to the member at the
same place.
-/

namespace List

variable {A B : Type} {R : A → B → Prop} {l : List A} {l' : List B}

/-- Every member of the second list has its counterpart in the first. -/
theorem Forall₂.of_mem_right (h : Forall₂ R l l') {b : B} (hb : b ∈ l') : ∃ a ∈ l, R a b := by
  induction h with
  | nil => exact absurd hb not_mem_nil
  | cons hab _ ih =>
    rcases mem_cons.1 hb with rfl | hb
    · exact ⟨_, mem_cons_self, hab⟩
    · obtain ⟨a, ha, hr⟩ := ih hb
      exact ⟨a, mem_cons_of_mem _ ha, hr⟩

/-- A relation between members that the rewriting respects. -/
theorem Forall₂.pairwise (h : Forall₂ R l l') {S : A → A → Prop} {S' : B → B → Prop}
    (hS : ∀ {a b a' b'}, R a b → R a' b' → S a a' → S' b b') (hl : l.Pairwise S) :
    l'.Pairwise S' := by
  induction h with
  | nil => exact .nil
  | @cons a b l l' hab hl' ih =>
    obtain ⟨ha, hl⟩ := pairwise_cons.1 hl
    refine pairwise_cons.2 ⟨?_, ih hl⟩
    intro b' hb'
    obtain ⟨a', ha', hr⟩ := hl'.of_mem_right hb'
    exact hS hab hr (ha a' ha')

/-- A weight that the rewriting keeps has the same sum. -/
theorem Forall₂.sum_map (h : Forall₂ R l l') {f : A → Nat} {g : B → Nat}
    (hf : ∀ {a b}, R a b → g b = f a) : (l'.map g).sum = (l.map f).sum := by
  induction h with
  | nil => rfl
  | cons hab _ ih => rw [map_cons, map_cons, sum_cons, sum_cons, hf hab, ih]

end List
