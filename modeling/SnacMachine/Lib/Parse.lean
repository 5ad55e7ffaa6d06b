import SnacMachine.Lib.Bytes

/-!
# Reading back what was written

Two notions for round trips of a writer and a reader that works at offsets of one buffer. `Span b
pos stop x` says that the octets of `b` from `pos` to `stop` are `x`; a read at `pos` then takes the
front of `x`. `Yields must o Q` says that the result of `o` satisfies `Q`, and that `o` does not
fail if `must` holds: one proof then serves both a reader that cannot fail (`must` is true) and one
that may give up (`must` is false). `Carries o o' Q` says that what `o` returns, and `Q` of it,
carries over to `o'`: the way to compare one reader on two buffers that agree where it reads
(`Agree`).
-/

/-- The result satisfies `Q`; there is one if `must` holds. -/
def Yields {α : Type} (must : Prop) (o : Option α) (Q : α → Prop) : Prop :=
  match o with
  | none => ¬ must
  | some a => Q a

namespace Yields

variable {α β : Type} {must : Prop} {o : Option α} {Q Q' : α → Prop}

/-- A result that is there satisfies what is asked of it; whether it must be there does not
matter. -/
@[simp] theorem some_iff {a : α} : Yields must (some a) Q ↔ Q a := Iff.rfl

/-- The rule of consequence for results. -/
theorem mono (h : Yields must o Q) (hQ : ∀ a, Q a → Q' a) : Yields must o Q' := by
  cases o with
  | none => exact h
  | some a => exact hQ a h

/-- Two readings in a row: the second one starts from what the first one yields. -/
theorem bind {f : α → Option β} {R : β → Prop} (h : Yields must o Q)
    (hf : ∀ a, Q a → Yields must (f a) R) : Yields must (o >>= f) R := by
  cases o with
  | none => exact h
  | some a => exact hf a h

/-- What a result satisfies. -/
theorem post (h : Yields must o Q) {a : α} (ho : o = some a) : Q a := by
  subst ho
  exact h

/-- There is a result when there must be one. -/
theorem exists_of_must (h : Yields must o Q) (hm : must) : ∃ a, o = some a ∧ Q a := by
  cases o with
  | none => exact absurd hm h
  | some a => exact ⟨a, rfl, h⟩

end Yields

/-- The octets from `pos` to `stop` are `x`. -/
def Span (b : Bytes) (pos stop : Nat) (x : Bytes) : Prop :=
  ∃ pre post, b = pre ++ x ++ post ∧ pre.length = pos ∧ stop = pos + x.length

namespace Span

variable {b x y : Bytes} {pos mid stop : Nat}

/-- The buffer after a part of it. -/
theorem suffix (x y : Bytes) : Span (x ++ y) x.length (x ++ y).length y :=
  ⟨x, [], by simp, rfl, by simp⟩

/-- The end of a span is given by its start and its octets. -/
theorem stop_eq (h : Span b pos stop x) : stop = pos + x.length := by
  obtain ⟨pre, post, rfl, rfl, rfl⟩ := h
  rfl

/-- A span ends within the buffer. -/
theorem stop_le (h : Span b pos stop x) : stop ≤ b.length := by
  obtain ⟨pre, post, rfl, rfl, rfl⟩ := h
  simp

/-- A span is as long as its octets. -/
theorem sub_eq (h : Span b pos stop x) : stop - pos = x.length := by
  rw [h.stop_eq, Nat.add_sub_cancel_left]

/-- The front of a span. -/
theorem left (h : Span b pos stop (x ++ y)) : Span b pos (pos + x.length) x := by
  obtain ⟨pre, post, rfl, rfl, rfl⟩ := h
  exact ⟨pre, y ++ post, by simp, rfl, rfl⟩

/-- The rest of a span. -/
theorem right (h : Span b pos stop (x ++ y)) : Span b (pos + x.length) stop y := by
  obtain ⟨pre, post, rfl, rfl, rfl⟩ := h
  exact ⟨pre ++ x, post, by simp, by simp, by simp [Nat.add_assoc]⟩

/-- A span after a number. -/
theorem right_be {w n : Nat} (h : Span b pos stop (toBe w n ++ y)) : Span b (pos + w) stop y := by
  simpa using h.right

/-- A span after an octet. -/
theorem right_byte {c : UInt8} (h : Span b pos stop (c :: y)) : Span b (pos + 1) stop y :=
  Span.right (x := [c]) h

/-- A span whose front and whose rest are given. -/
theorem append (h : Span b pos mid x) (h' : Span b mid stop y) : Span b pos stop (x ++ y) := by
  obtain ⟨pre, post, rfl, rfl, rfl⟩ := h
  obtain ⟨pre', post', hb, hl, rfl⟩ := h'
  rw [List.append_assoc pre', ] at hb
  obtain ⟨rfl, rfl⟩ := List.append_inj hb (by simp [hl])
  exact ⟨pre, post', by simp, rfl, by simp [Nat.add_assoc]⟩

/-- The octets of a span, taken out of the buffer. -/
theorem octets (h : Span b pos stop x) : (b.drop pos).take x.length = x := by
  obtain ⟨pre, post, rfl, rfl, rfl⟩ := h
  simp

/-- One octet of a buffer. -/
theorem getElem? {c : UInt8} (h : Span b pos stop (c :: x)) : b[pos]? = some c := by
  obtain ⟨pre, post, rfl, rfl, rfl⟩ := h
  simp

/-- A buffer's octets up to its end are a span. -/
theorem ofDrop (h : pos ≤ b.length) : Span b pos b.length (b.drop pos) :=
  ⟨b.take pos, [], by simp, by simp [h], by simp [h]⟩

end Span

/-- What `o` returns, `o'` returns too, and it satisfies `Q`. -/
def Carries {α : Type} (o o' : Option α) (Q : α → Prop) : Prop :=
  ∀ a, o = some a → o' = some a ∧ Q a

namespace Carries

variable {α β : Type} {o o' : Option α} {Q Q' : α → Prop}

/-- Two readings in a row carry over if each of them does. -/
theorem bind {f f' : α → Option β} {R : β → Prop} (h : Carries o o' Q)
    (hf : ∀ a, Q a → Carries (f a) (f' a) R) : Carries (o >>= f) (o' >>= f') R := by
  intro c hc
  obtain ⟨a, ha, hc⟩ := Option.bind_eq_some_iff.1 hc
  obtain ⟨ha', hq⟩ := h a ha
  obtain ⟨hc', hr⟩ := hf a hq c hc
  exact ⟨by rw [ha']; exact hc', hr⟩

/-- A change of what was read carries over. -/
theorem map {f : α → β} {R : β → Prop} (h : Carries o o' Q) (hf : ∀ a, Q a → R (f a)) :
    Carries (o.map f) (o'.map f) R := by
  intro c hc
  obtain ⟨a, ha, rfl⟩ := Option.map_eq_some_iff.1 hc
  obtain ⟨ha', hq⟩ := h a ha
  exact ⟨by rw [ha']; rfl, hf a hq⟩

/-- The rule of consequence for what carries over. -/
theorem mono (h : Carries o o' Q) (hQ : ∀ a, Q a → Q' a) : Carries o o' Q' := fun a ha =>
  ⟨(h a ha).1, hQ a (h a ha).2⟩

/-- A reading that fails has nothing to carry over. -/
theorem none : Carries (none : Option α) o' Q := fun _ h => nomatch h

/-- The same result on both sides carries over. -/
theorem some {a : α} (h : Q a) : Carries (some a) (some a) Q := by
  rintro _ ⟨⟩
  exact ⟨rfl, h⟩

/-- A check that both readers make. -/
theorem guard {c : Prop} [Decidable c] (h : ¬ c → Carries o o' Q) :
    Carries (if c then Option.none else o) (if c then Option.none else o') Q := by
  by_cases hc : c
  · rw [if_pos hc, if_pos hc]
    exact none
  · rw [if_neg hc, if_neg hc]
    exact h hc

end Carries

/-- Two buffers agree between two offsets. -/
def Agree (b b' : Bytes) (lo hi : Nat) : Prop := ∀ i, lo ≤ i → i < hi → b[i]? = b'[i]?

namespace Agree

variable {b b' : Bytes} {lo hi lo' hi' : Nat}

/-- Buffers that agree on a range agree on each part of it. -/
theorem sub (h : Agree b b' lo hi) (hlo : lo ≤ lo') (hhi : hi' ≤ hi) : Agree b b' lo' hi' :=
  fun i h₁ h₂ => h i (Nat.le_trans hlo h₁) (Nat.lt_of_lt_of_le h₂ hhi)

/-- The octets between two offsets are the same. -/
theorem octets {pos n : Nat} (h : Agree b b' pos (pos + n)) :
    (b.drop pos).take n = (b'.drop pos).take n := by
  refine List.ext_getElem? fun i => ?_
  rw [List.getElem?_take, List.getElem?_take]
  split
  · rw [List.getElem?_drop, List.getElem?_drop]
    exact h _ (Nat.le_add_right _ _) (by omega)
  · rfl

end Agree
