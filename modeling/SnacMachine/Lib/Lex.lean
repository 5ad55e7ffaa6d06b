import Mathlib.Data.List.Lex
import Mathlib.Tactic.Ring

/-!
# Words in lexicographic order

What comes after a word in lexicographic order, where a word comes before its extensions: first the
extensions of the word (`append_le_of_lt`), then the words that leave it (`append_lt_of_leaves`).
-/

namespace List

variable {α : Type} [LinearOrder α]

/-- A common start has no part in the order. -/
theorem append_lt_append_iff {c a b : List α} : c ++ a < c ++ b ↔ a < b := by
  induction c with
  | nil => rfl
  | cons x c ih => simp [ih]

/-- A common start has no part in the order. -/
theorem append_le_append_iff {c a b : List α} : c ++ a ≤ c ++ b ↔ a ≤ b := by
  rw [← not_lt, ← not_lt, append_lt_append_iff]

/-- The empty word comes first. -/
theorem nil_le_word (a : List α) : [] ≤ a := not_lt.1 (by simp)

/-- Words are compared by their first letters, and by the rest if these are equal. -/
theorem cons_le_cons_word {x y : α} {a b : List α} : x :: a ≤ y :: b ↔ x < y ∨ x = y ∧ a ≤ b := by
  rw [← not_lt, List.cons_lt_cons_iff, ← not_lt (b := a)]
  rcases lt_trichotomy x y with hlt | rfl | hgt
  · simp [hlt, hlt.ne', hlt.le]
  · simp
  · simp [hgt, hgt.ne', hgt.not_gt]

/-- A word does not come after its extensions. -/
theorem le_append (a b : List α) : a ≤ a ++ b := by
  induction a with
  | nil => exact nil_le_word b
  | cons x a ih => exact cons_le_cons_word.2 (.inr ⟨rfl, ih⟩)

/-- A word comes before its extensions. -/
theorem lt_append {b : List α} (a : List α) (h : b ≠ []) : a < a ++ b := by
  refine lt_of_le_of_ne (le_append a b) fun heq => h ?_
  simpa using heq

/-- A word that is greater than another and no extension of it is greater than the extensions. By
induction on the first word: the two differ at a letter before its end. -/
theorem append_lt_of_leaves {a b : List α} (h : a < b) (hb : ¬ a <+: b) (t : List α) :
    a ++ t < b := by
  induction a generalizing b with
  | nil => exact absurd (List.nil_prefix) hb
  | cons x a ih =>
    cases b with
    | nil => exact absurd h (by simp)
    | cons y b =>
      rw [List.cons_append, List.cons_lt_cons_iff]
      rcases List.cons_lt_cons_iff.1 h with hlt | ⟨rfl, hlt⟩
      · exact .inl hlt
      · exact .inr ⟨rfl, ih hlt fun hp => hb (by simpa using hp)⟩

/-- What is greater than a word with one more letter: its extensions, the words with a greater
letter in that place, and the words that leave before it. -/
theorem snoc_lt_cases {a b : List α} {x : α} (h : a ++ [x] < b) :
    (∃ t, t ≠ [] ∧ b = a ++ x :: t) ∨ (∃ y t, x < y ∧ b = a ++ y :: t) ∨ (a < b ∧ ¬ a <+: b) := by
  by_cases hp : a <+: b
  · obtain ⟨s, rfl⟩ := hp
    rw [append_lt_append_iff] at h
    cases s with
    | nil => exact absurd h (by simp)
    | cons y t =>
      rcases List.cons_lt_cons_iff.1 h with hlt | ⟨rfl, hlt⟩
      · exact .inr (.inl ⟨y, t, hlt, rfl⟩)
      · exact .inl ⟨t, fun hnil => by simp [hnil] at hlt, rfl⟩
  · exact .inr (.inr ⟨(le_append a [x]).trans_lt h, hp⟩)

/-- The first word after another is the one with the least letter after it. By induction on the
first word; at its end the other has a letter left, which is not less than the least. -/
theorem snoc_le_of_lt {a b : List α} {bot : α} (hbot : ∀ x ∈ b, bot ≤ x) (h : a < b) :
    a ++ [bot] ≤ b := by
  induction a generalizing b with
  | nil =>
    cases b with
    | nil => exact absurd h (by simp)
    | cons y b =>
      rw [List.nil_append, cons_le_cons_word]
      rcases (hbot y List.mem_cons_self).lt_or_eq with hlt | heq
      · exact .inl hlt
      · exact .inr ⟨heq, nil_le_word b⟩
  | cons x a ih =>
    cases b with
    | nil => exact absurd h (by simp)
    | cons y b =>
      rw [List.cons_append, cons_le_cons_word]
      rcases List.cons_lt_cons_iff.1 h with hlt | ⟨rfl, hlt⟩
      · exact .inl hlt
      · exact .inr ⟨rfl, ih (fun z hz => hbot z (List.mem_cons_of_mem _ hz)) hlt⟩

/-- Only longer words come after a word of greatest letters. By induction on the word: the first
letters are equal, since no letter is greater. -/
theorem length_lt_of_top {a b : List α} {top : α} (ha : ∀ x ∈ a, x = top) (hb : ∀ x ∈ b, x ≤ top)
    (h : a < b) : a.length < b.length := by
  induction a generalizing b with
  | nil =>
    cases b with
    | nil => exact absurd h (by simp)
    | cons y b => simp
  | cons x a ih =>
    cases b with
    | nil => exact absurd h (by simp)
    | cons y b =>
      have hx := ha x List.mem_cons_self
      have hy := hb y List.mem_cons_self
      rcases List.cons_lt_cons_iff.1 h with hlt | ⟨-, hlt⟩
      · exact absurd (hx ▸ hlt) (not_lt.2 hy)
      · have := ih (fun z hz => ha z (List.mem_cons_of_mem _ hz))
          (fun z hz => hb z (List.mem_cons_of_mem _ hz)) hlt
        simpa using this

/-- The first word after another that is no longer: the last letter that has a greater one is
replaced by the next letter, and what follows it is dropped. -/
theorem increment_le_of_lt {a q b : List α} {x y top : α} (hq : ∀ z ∈ q, z = top)
    (hb : ∀ z ∈ b, z ≤ top ∧ (x < z → y ≤ z)) (hlen : b.length ≤ (a ++ x :: q).length)
    (h : a ++ x :: q < b) : a ++ [y] ≤ b := by
  induction a generalizing b with
  | nil =>
    cases b with
    | nil => exact absurd h (by simp)
    | cons z b =>
      obtain ⟨-, hy⟩ := hb z List.mem_cons_self
      rw [List.nil_append, cons_le_cons_word]
      rcases List.cons_lt_cons_iff.1 h with hlt | ⟨-, hlt⟩
      · rcases (hy hlt).lt_or_eq with hlt | heq
        · exact .inl hlt
        · exact .inr ⟨heq, nil_le_word b⟩
      · have := length_lt_of_top hq (fun w hw => (hb w (List.mem_cons_of_mem _ hw)).1) hlt
        simp only [List.nil_append, List.length_cons] at hlen
        omega
  | cons c a ih =>
    cases b with
    | nil => exact absurd h (by simp)
    | cons z b =>
      rw [List.cons_append, cons_le_cons_word]
      rcases List.cons_lt_cons_iff.1 h with hlt | ⟨rfl, hlt⟩
      · exact .inl hlt
      · refine .inr ⟨rfl, ih (fun w hw => hb w (List.mem_cons_of_mem _ hw)) ?_ hlt⟩
        simpa using hlen

end List
