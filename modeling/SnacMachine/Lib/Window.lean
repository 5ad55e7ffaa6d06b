import Mathlib.Tactic.Common

/-!
# Fixed windows

A `Window` admits at most a number of events (its cap) from the moment it opens; an event that finds
it open for a given length or longer opens a new one. Whatever the moments of the events are, as
long as they do not go back, no interval of that length holds more than twice the cap of admitted
events (`Window.Kept.bound`).
-/

/-- A window: when it opened, and how many events it has admitted. -/
structure Window where
  start : Nat
  sent : Nat
  deriving DecidableEq

namespace Window

variable {cap len now : Nat} {w : Window}

/-- The window that an event finds: the old one, or a new one. -/
def turn (len now : Nat) (w : Window) : Window := if now ≥ w.start + len then ⟨now, 0⟩ else w

/-- Whether an event is admitted. -/
def admits (cap len now : Nat) (w : Window) : Bool := decide ((w.turn len now).sent < cap)

/-- The window after an event. -/
def next (cap len now : Nat) (w : Window) : Window :=
  if w.admits cap len now then ⟨(w.turn len now).start, (w.turn len now).sent + 1⟩
  else w.turn len now

/-! ## Counting -/

/-- How many moments are in an interval, its end excluded. -/
def within (ts : List Nat) (a b : Nat) : Nat := ts.countP fun t => a ≤ t && t < b

/-- The moments of two lists are counted together. -/
theorem within_append (ts us : List Nat) (a b : Nat) :
    within (ts ++ us) a b = within ts a b + within us a b := List.countP_append

/-- One moment is in the interval or not. -/
theorem within_singleton (t a b : Nat) : within [t] a b = if a ≤ t ∧ t < b then 1 else 0 := by
  simp [within, List.countP_cons]

/-- An interval is covered by its two parts, wherever it is divided. -/
theorem within_le_add (ts : List Nat) (a b c : Nat) :
    within ts a c ≤ within ts a b + within ts b c := by
  induction ts with
  | nil => exact Nat.zero_le _
  | cons t ts ih =>
    have hone := within_singleton t
    rw [← List.singleton_append, within_append, within_append, within_append, hone, hone, hone]
    have : (if a ≤ t ∧ t < c then 1 else 0) ≤
        (if a ≤ t ∧ t < b then 1 else 0) + (if b ≤ t ∧ t < c then 1 else 0) := by
      split <;> split <;> split <;> omega
    omega

/-- A wider interval holds no fewer moments. -/
theorem within_mono (ts : List Nat) {a b c d : Nat} (hab : b ≤ a) (hcd : c ≤ d) :
    within ts a c ≤ within ts b d := by
  refine List.countP_mono_left fun t _ h => ?_
  simp only [Bool.and_eq_true, decide_eq_true_eq] at h ⊢
  omega

/-- Nothing is counted where all moments lie before the interval. -/
theorem within_eq_zero {ts : List Nat} {a b : Nat} (h : ∀ t ∈ ts, t < a) : within ts a b = 0 := by
  refine List.countP_eq_zero.2 fun t ht hin => ?_
  simp only [Bool.and_eq_true, decide_eq_true_eq] at hin
  have := h t ht
  omega

/-! ## Admitted events -/

/-- The moments of the events that a window has admitted so far, up to a moment. -/
structure Kept (cap len : Nat) (ts : List Nat) (w : Window) (now : Nat) : Prop where
  opened : w.start ≤ now
  past : ∀ t ∈ ts, t ≤ now
  recent : ∀ t ∈ ts, t < w.start + len
  current : ∀ b, within ts w.start b ≤ w.sent
  sent : w.sent ≤ cap
  before : ∀ a, w.start ≤ a + len → within ts a w.start ≤ cap
  bound : ∀ a, within ts a (a + len) ≤ 2 * cap

/-- A new window has admitted nothing. -/
theorem Kept.nil (cap len now : Nat) : Kept cap len [] ⟨0, 0⟩ now :=
  ⟨Nat.zero_le _, fun _ h => (nomatch h), fun _ h => (nomatch h), fun _ => Nat.le_refl _,
    Nat.zero_le _, fun _ _ => Nat.zero_le _, fun _ => Nat.zero_le _⟩

variable {ts : List Nat} {t : Nat}

/-- Time that goes by changes nothing about what was admitted. -/
theorem Kept.later (h : Kept cap len ts w t) (hle : t ≤ now) : Kept cap len ts w now :=
  ⟨Nat.le_trans h.opened hle, fun s hs => Nat.le_trans (h.past s hs) hle, h.recent,
   h.current, h.sent,
    h.before, h.bound⟩

/-- A window that turns keeps what it has admitted. If it turns, all admitted moments are before its
new start, and otherwise it is the same window. -/
theorem Kept.turn (h : Kept cap len ts w t) (hle : t ≤ now) :
    Kept cap len ts (w.turn len now) now := by
  have hlater := h.later hle
  unfold Window.turn
  split
  · next hopen =>
    have hold : ∀ s ∈ ts, s < now := fun s hs => Nat.lt_of_lt_of_le (h.recent s hs) hopen
    refine ⟨Nat.le_refl now, hlater.past, fun s hs => Nat.lt_add_right len (hold s hs),
      fun b => Nat.le_of_eq (within_eq_zero hold), Nat.zero_le cap, ?_, h.bound⟩
    intro a hle'
    have hstart : w.start ≤ a := by
      have : now ≤ a + len := hle'
      omega
    calc within ts a now ≤ within ts w.start now := within_mono ts hstart (Nat.le_refl _)
      _ ≤ w.sent := h.current now
      _ ≤ cap := h.sent
  · exact hlater

/-- An event that a window admits keeps the limits. A span that begins before the window and ends in
it is cut at the start of the window: what came before is bounded by `before`, and what came in it
by `current`. -/
theorem Kept.admit (h : Kept cap len ts w now) (hroom : w.sent < cap) (hin : now < w.start + len) :
    Kept cap len (ts ++ [now]) ⟨w.start, w.sent + 1⟩ now := by
  have hmem : ∀ s ∈ ts ++ [now], s ∈ ts ∨ s = now := fun s hs =>
    (List.mem_append.1 hs).imp id List.mem_singleton.1
  have hone : ∀ a b, within (ts ++ [now]) a b ≤ within ts a b + 1 := by
    intro a b
    rw [within_append, within_singleton]
    split <;> omega
  have hcurrent : ∀ b, within (ts ++ [now]) w.start b ≤ w.sent + 1 := fun b =>
    Nat.le_trans (hone _ _) (Nat.add_le_add_right (h.current b) 1)
  have hbefore : ∀ a, w.start ≤ a + len → within (ts ++ [now]) a w.start ≤ cap := by
    intro a ha
    have hnot : ¬ (a ≤ now ∧ now < w.start) := by
      have := h.opened
      omega
    rw [within_append, within_singleton, if_neg hnot]
    exact h.before a ha
  refine ⟨h.opened, ?_, ?_, hcurrent, hroom, hbefore, ?_⟩
  · intro s hs
    rcases hmem s hs with hs | rfl
    · exact h.past s hs
    · exact Nat.le_refl s
  · intro s hs
    rcases hmem s hs with hs | rfl
    · exact h.recent s hs
    · exact hin
  · intro a
    by_cases hnow : a ≤ now ∧ now < a + len
    · have hsplit := within_le_add (ts ++ [now]) a w.start (a + len)
      have hafter := hcurrent (a + len)
      have hopen := hbefore a (by have := h.opened; omega)
      omega
    · rw [within_append, within_singleton, if_neg hnow]
      exact h.bound a

/-- An event, admitted or not. The window turns first, so the event is within it, and it is admitted
just if there is room left. -/
theorem Kept.next (h : Kept cap len ts w t) (hle : t ≤ now) (hlen : 0 < len) :
    Kept cap len (if w.admits cap len now then ts ++ [now] else ts) (w.next cap len now) now := by
  have hturn := h.turn hle
  have hin : now < (w.turn len now).start + len := by
    unfold Window.turn
    split
    · exact Nat.lt_add_of_pos_right hlen
    · next hopen => exact Nat.not_le.1 hopen
  unfold Window.next
  by_cases hroom : w.admits cap len now = true
  · rw [if_pos hroom, if_pos hroom]
    exact hturn.admit (of_decide_eq_true hroom) hin
  · rw [if_neg hroom, if_neg hroom]
    exact hturn

end Window
