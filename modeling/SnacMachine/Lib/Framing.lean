import Mathlib.Data.List.Basic
import Mathlib.Tactic.Common

/-!
# Framed streams

A stream of frames, each of which says its own size in its first elements (`Framing`). `decode`
cuts a stream into its complete frames and what remains; it can be done piecewise, what remains of
one piece being put in front of the next (`decode_append`).
-/

/-- How a frame says its size: `size` reads it from any stream that begins with the frame, once the
stream is long enough, and does not change its mind when the stream grows. -/
structure Framing (α : Type) where
  size : List α → Option Nat
  pos : ∀ {xs n}, size xs = some n → 0 < n
  stable : ∀ {xs n} ys, size xs = some n → size (xs ++ ys) = some n

namespace Framing

variable {α : Type} (F : Framing α)

/-- The complete frames of a stream and what remains of it. -/
def decode (xs : List α) : List (List α) × List α :=
  match _ : F.size xs with
  | none => ([], xs)
  | some n =>
    if _ : n ≤ xs.length then
      (xs.take n :: (decode (xs.drop n)).1, (decode (xs.drop n)).2)
    else ([], xs)
termination_by xs.length
decreasing_by all_goals have := F.pos ‹F.size xs = some n›; simp only [List.length_drop]; omega

/-- A stream that holds no complete frame. -/
def Short (xs : List α) : Prop := ∀ n, F.size xs = some n → xs.length < n

variable {F} {xs ys : List α} {n : Nat}

/-- A stream that is too short for its first frame is left as it is. -/
theorem decode_short (h : F.Short xs) : F.decode xs = ([], xs) := by
  rw [decode]
  split
  · rfl
  · rename_i n hn
    rw [dif_neg (by have := h n hn; omega)]

/-- The first frame of a stream that holds it is cut off, and the rest is decoded likewise. -/
theorem decode_frame (hn : F.size xs = some n) (hl : n ≤ xs.length) :
    F.decode xs = (xs.take n :: (F.decode (xs.drop n)).1, (F.decode (xs.drop n)).2) := by
  rw [decode]
  split
  · rename_i h
    rw [h] at hn
    cases hn
  · rename_i m h
    obtain rfl : m = n := by rw [h] at hn; exact Option.some.inj hn
    rw [dif_pos hl]

/-- A stream is short, or a complete frame stands at its front. The size of the frame is compared
with what is there. -/
theorem short_or_frame (F : Framing α) (xs : List α) :
    F.Short xs ∨ ∃ n, F.size xs = some n ∧ n ≤ xs.length := by
  cases h : F.size xs with
  | none =>
    left
    intro n hn
    rw [h] at hn
    cases hn
  | some n =>
    by_cases hl : n ≤ xs.length
    · exact .inr ⟨n, rfl, hl⟩
    · left
      intro m hm
      rw [h] at hm
      cases hm
      omega

/-- The stream without its first frame is shorter. -/
theorem length_drop_lt (hn : F.size xs = some n) (hl : n ≤ xs.length) :
    (xs.drop n).length < xs.length := by
  have := F.pos hn
  simp only [List.length_drop]
  omega

/-- The induction along the frames of a stream. -/
theorem frames_induction {P : List α → Prop} (short : ∀ xs, F.Short xs → P xs)
    (frame : ∀ xs n, F.size xs = some n → n ≤ xs.length → P (xs.drop n) → P xs) (xs : List α) :
    P xs := by
  induction h : xs.length using Nat.strongRecOn generalizing xs with
  | _ k ih =>
    obtain hs | ⟨n, hn, hl⟩ := F.short_or_frame xs
    · exact short xs hs
    · exact frame xs n hn hl (ih _ (h ▸ length_drop_lt hn hl) _ rfl)

/-- What remains holds no complete frame. -/
theorem short_decode (F : Framing α) (xs : List α) : F.Short (F.decode xs).2 := by
  induction xs using frames_induction (F := F) with
  | short xs h => rw [decode_short h]; exact h
  | frame xs n hn hl ih => rw [decode_frame hn hl]; exact ih

/-- A stream in two pieces: the frames of the first, then those of what remains of it followed by
the second. -/
theorem decode_append (F : Framing α) (xs ys : List α) :
    F.decode (xs ++ ys) = ((F.decode xs).1 ++ (F.decode ((F.decode xs).2 ++ ys)).1,
      (F.decode ((F.decode xs).2 ++ ys)).2) := by
  induction xs using frames_induction (F := F) with
  | short xs h => rw [decode_short h]; rfl
  | frame xs n hn hl ih =>
    have hl' : n ≤ (xs ++ ys).length := by
      rw [List.length_append]
      omega
    rw [decode_frame (F.stable ys hn) hl', decode_frame hn hl, List.take_append_of_le_length hl,
      List.drop_append_of_le_length hl, ih]
    rfl

/-- The frames and what remains are the stream. -/
theorem flatten_decode (F : Framing α) (xs : List α) :
    (F.decode xs).1.flatten ++ (F.decode xs).2 = xs := by
  induction xs using frames_induction (F := F) with
  | short xs h => rw [decode_short h]; rfl
  | frame xs n hn hl ih =>
    rw [decode_frame hn hl, List.flatten_cons, List.append_assoc, ih, List.take_append_drop]

end Framing
