import Mathlib.Tactic.Common

/-!
# Computations that may fail half way

An `Act` changes a state and may fail; what it did before it failed stays done. `Changes R` says
that a computation changes the state only as the frame `R` allows, whether it fails or not, and is
proved along the structure of the computation. The frames that are used are `Frame.same` (a part of
the state stays) and `Frame.keeps` (a property is kept). `Ensures P Q` says that a computation that
starts in `P` and does not fail ends in `Q`, and is proved along the same structure.
-/

/-- A computation without a state that is done with a result goes on with it. -/
theorem exceptBind_ok {E α β : Type} {x : Except E α} {f : α → Except E β} {b : β}
    (h : (x >>= f) = .ok b) : ∃ a, x = .ok a ∧ f a = .ok b := by
  cases x with
  | error e => cases h
  | ok a => exact ⟨a, rfl, h⟩

/-- A computation on states `S` with errors `E` and results `α`. -/
def Act (S E α : Type) := S → Except E α × S

namespace Act

variable {S E α β : Type}

instance : Monad (Act S E) where
  pure a := fun s => (.ok a, s)
  bind m f := fun s =>
    match m s with
    | (.ok a, s) => f a s
    | (.error e, s) => (.error e, s)

instance : LawfulMonad (Act S E) := by
  refine LawfulMonad.mk' _ (fun m => ?_) (fun a f => rfl) fun m f g => ?_
  · funext s
    show (match m s with
      | (.ok a, s) => (.ok a, s)
      | (.error e, s) => (.error e, s)) = m s
    split
    · next h => exact h.symm
    · next h => exact h.symm
  · funext s
    simp only [bind]
    cases m s with
    | mk r t => cases r <;> rfl

/-- The state. -/
def get : Act S E S := fun s => (.ok s, s)

/-- A change of the state. -/
def modify (f : S → S) : Act S E Unit := fun s => (.ok (), f s)

/-- Failure. -/
def fail (e : E) : Act S E α := fun s => (.error e, s)

/-- The result of a fallible function. -/
def lift (r : Except E α) : Act S E α := fun s => (r, s)

@[simp] theorem pure_run (a : α) (s : S) : (pure a : Act S E α) s = (.ok a, s) := rfl
@[simp] theorem get_run (s : S) : (get : Act S E S) s = (.ok s, s) := rfl
@[simp] theorem modify_run (f : S → S) (s : S) : (modify f : Act S E Unit) s = (.ok (), f s) := rfl
@[simp] theorem fail_run (e : E) (s : S) : (fail e : Act S E α) s = (.error e, s) := rfl
@[simp] theorem lift_run (r : Except E α) (s : S) : (lift r : Act S E α) s = (r, s) := rfl

/-- A computation that goes on after another one: what the first one returns is passed on with the
state that it left, and its error ends the whole, with what it did. -/
theorem bind_run (m : Act S E α) (f : α → Act S E β) (s : S) :
    (m >>= f) s = match m s with
      | (.ok a, s) => f a s
      | (.error e, s) => (.error e, s) := rfl

/-- Reading the state passes on what the state is. -/
@[simp] theorem get_bind (f : S → Act S E β) (s : S) : (get >>= f) s = f s s := rfl

/-- Changing the state passes the changed state on. -/
@[simp] theorem modify_bind (g : S → S) (f : Unit → Act S E β) (s : S) :
    (modify g >>= f) s = f () (g s) := rfl

/-- A computation goes on from a known result. -/
theorem bind_ok {m : Act S E α} {f : α → Act S E β} {s t : S} {a : α} (h : m s = (.ok a, t)) :
    (m >>= f) s = f a t := by
  rw [bind_run, h]

/-- A computation fails with its first part. -/
theorem bind_error {m : Act S E α} {f : α → Act S E β} {s t : S} {e : E}
    (h : m s = (.error e, t)) : (m >>= f) s = (.error e, t) := by
  rw [bind_run, h]

/-- A computation that is done with a result goes on with it. -/
theorem bind_eq_ok {m : Act S E α} {f : α → Act S E β} {s s' : S} {b : β}
    (h : (m >>= f) s = (.ok b, s')) : ∃ a t, m s = (.ok a, t) ∧ f a t = (.ok b, s') := by
  rw [bind_run] at h
  split at h
  · next a t hm => exact ⟨a, t, hm, h⟩
  · cases h

/-! ## What a computation changes -/

/-- A relation between the states before and after a computation that computations compose. -/
structure Frame (S : Type) where
  rel : S → S → Prop
  refl : ∀ s, rel s s
  trans : ∀ {s t u}, rel s t → rel t u → rel s u

/-- The part `p` of the state stays as it is. -/
def Frame.same {T : Type} (p : S → T) : Frame S where
  rel s t := p t = p s
  refl _ := rfl
  trans h h' := h'.trans h

/-- The property `I` of states is kept. -/
def Frame.keeps (I : S → Prop) : Frame S where
  rel s t := I s → I t
  refl _ h := h
  trans h h' hs := h' (h hs)

/-- Whatever the outcome, the states before and after are related. -/
def Changes (R : Frame S) (m : Act S E α) : Prop := ∀ s, R.rel s (m s).2

variable {R : Frame S}

/-- A result without an effect is within every frame, since frames are reflexive. -/
theorem Changes.pure (a : α) : Changes R (pure a : Act S E α) := fun s => R.refl s

/-- Failing changes nothing, and so it is within every frame. -/
theorem Changes.fail (e : E) : Changes R (fail e : Act S E α) := fun s => R.refl s

/-- A result that is computed without the state is within every frame. -/
theorem Changes.lift (r : Except E α) : Changes R (lift r : Act S E α) := fun s => R.refl s

/-- The rule at one state, where the outcome of the first computation is known. -/
theorem bind_at {m : Act S E α} {f : α → Act S E β} {s : S} (hm : R.rel s (m s).2)
    (hf : ∀ a t, m s = (.ok a, t) → R.rel t (f a t).2) : R.rel s ((m >>= f) s).2 := by
  rw [bind_run]
  split
  · next a t heq =>
    rw [heq] at hm
    exact R.trans hm (hf a t heq)
  · next e t heq =>
    rw [heq] at hm
    exact hm

/-- Computations within a frame, one after the other, are within it together, whichever of them
fails. -/
theorem Changes.bind {m : Act S E α} {f : α → Act S E β} (hm : Changes R m)
    (hf : ∀ a, Changes R (f a)) : Changes R (m >>= f) :=
  fun s => bind_at (hm s) fun a t _ => hf a t

/-- A choice is within a frame if both of its branches are. -/
theorem Changes.ite {p : Prop} [Decidable p] {m m' : Act S E α} (hm : Changes R m)
    (hm' : Changes R m') : Changes R (if p then m else m') := by
  split
  · exact hm
  · exact hm'

/-- Two branches, of which the first goes on with the second. -/
theorem Changes.branch {p : Prop} [Decidable p] {m m' : Act S E α} (hm' : Changes R m')
    (hm : p → Changes R m' → Changes R m) : Changes R (if p then m else m') := by
  split
  · next h => exact hm h hm'
  · exact hm'

/-- A computation that is done only on a condition, before the rest. -/
theorem Changes.when {p : Prop} [Decidable p] {m : Act S E Unit} {k : Unit → Act S E β}
    (hm : Changes R m) (hk : ∀ a, Changes R (k a)) : Changes R (if p then m >>= k else k ()) :=
  .branch (hk ()) fun _ _ => .bind hm hk

/-- A frame is kept over a loop with results if it is kept in every round. -/
theorem Changes.mapM {l : List α} {f : α → Act S E β} (h : ∀ a ∈ l, Changes R (f a)) :
    Changes R (l.mapM f) := by
  induction l with
  | nil => exact .pure []
  | cons a l ih =>
    rw [List.mapM_cons]
    exact .bind (h a List.mem_cons_self) fun _ =>
      .bind (ih fun b hb => h b (List.mem_cons_of_mem _ hb)) fun _ => .pure _

/-- What is within a frame is within every frame that allows more. -/
theorem Changes.mono {R' : Frame S} {m : Act S E α} (h : Changes R m)
    (hR : ∀ s t, R.rel s t → R'.rel s t) : Changes R' m := fun s => hR s _ (h s)

/-- A frame is kept over a loop if it is kept in every round. -/
theorem Changes.forM {l : List α} {f : α → Act S E Unit} (h : ∀ a ∈ l, Changes R (f a)) :
    Changes R (l.forM f) := by
  induction l with
  | nil => exact .pure ()
  | cons a l ih =>
    exact .bind (h a List.mem_cons_self) fun _ => ih fun b hb => h b (List.mem_cons_of_mem _ hb)

/-! ## What a computation ends with -/

/-- From a state with `P` the computation ends, unless it fails, with a result and a state that
satisfy `Q`. -/
def Ensures (P : S → Prop) (Q : α → S → Prop) (m : Act S E α) : Prop :=
  ∀ s a t, P s → m s = (.ok a, t) → Q a t

variable {P : S → Prop} {Q : α → S → Prop} {T : β → S → Prop}

/-- A result without an effect ensures what holds of it wherever the computation may start. -/
theorem Ensures.pure {a : α} (h : ∀ s, P s → Q a s) : Ensures P Q (pure a : Act S E α) := by
  intro s b t hs hrun
  cases hrun
  exact h s hs

/-- A computation that fails ensures everything, since only results are spoken of. -/
theorem Ensures.fail (e : E) : Ensures P Q (fail e : Act S E α) := by
  intro s a t _ hrun
  cases hrun

/-- What the first computation ensures is what the second one may start from. -/
theorem Ensures.bind {m : Act S E α} {f : α → Act S E β} (hm : Ensures P Q m)
    (hf : ∀ a, Ensures (Q a) T (f a)) : Ensures P T (m >>= f) := by
  intro s b t hs hrun
  obtain ⟨a, u, hma, hfb⟩ := bind_eq_ok hrun
  exact hf a u b t (hm s a u hs hma) hfb

/-- A choice ensures what its branches ensure, each under its own condition. -/
theorem Ensures.branch {p : Prop} [Decidable p] {m m' : Act S E α} (hm : p → Ensures P Q m)
    (hm' : ¬ p → Ensures P Q m') : Ensures P Q (if p then m else m') := by
  split
  · next h => exact hm h
  · next h => exact hm' h

/-- The usual rule of consequence: from less to start with, or with more to end with. -/
theorem Ensures.mono {P' : S → Prop} {Q' : α → S → Prop} {m : Act S E α} (h : Ensures P Q m)
    (hP : ∀ s, P' s → P s) (hQ : ∀ a s, Q a s → Q' a s) : Ensures P' Q' m :=
  fun s a t hs hrun => hQ a t (h s a t (hP s hs) hrun)

/-- A property that the computation keeps. -/
theorem Changes.yields {I : S → Prop} {m : Act S E α} (h : Changes (.keeps I) m) :
    Ensures I (fun _ => I) m := by
  intro s a t hs hrun
  have hst := h s
  rw [hrun] at hst
  exact hst hs

/-- What every round of a loop keeps, the loop keeps. -/
theorem Ensures.forM {I : S → Prop} {l : List α} {f : α → Act S E Unit}
    (h : ∀ a ∈ l, Ensures I (fun _ => I) (f a)) : Ensures I (fun _ => I) (l.forM f) := by
  induction l with
  | nil => exact .pure fun s hs => hs
  | cons a l ih =>
    exact .bind (h a List.mem_cons_self) fun _ => ih fun b hb => h b (List.mem_cons_of_mem _ hb)

/-- One of the elements of a list brings about `D`, which the others keep. -/
theorem Ensures.forM_mem {I D : S → Prop} {l : List α} {f : α → Act S E Unit} {a : α} (ha : a ∈ l)
    (hI : ∀ b ∈ l, Ensures I (fun _ => I) (f b)) (hD : ∀ b ∈ l, Ensures D (fun _ => D) (f b))
    (hf : Ensures I (fun _ => D) (f a)) : Ensures I (fun _ => D) (l.forM f) := by
  induction l with
  | nil => cases ha
  | cons b l ih =>
    have hrest := fun c hc => hD c (List.mem_cons_of_mem b hc)
    rcases List.mem_cons.1 ha with rfl | ha
    · exact .bind hf fun _ => .forM hrest
    · exact .bind (hI b List.mem_cons_self) fun _ =>
        ih ha (fun c hc => hI c (List.mem_cons_of_mem _ hc)) hrest

/-- What holds of each result holds of all of them. By induction on the list; the conditions on the
state do not matter here. -/
theorem Ensures.mapM {l : List α} {f : α → Act S E β} {Q : β → Prop}
    (h : ∀ a ∈ l, Ensures (fun _ => True) (fun b _ => Q b) (f a)) :
    Ensures (fun _ => True) (fun bs _ => ∀ b ∈ bs, Q b) (l.mapM f) := by
  induction l with
  | nil => exact .pure fun s _ => nofun
  | cons a l ih =>
    rw [List.mapM_cons]
    refine .bind (h a List.mem_cons_self) fun b => ?_
    intro s bs t hb hrun
    obtain ⟨bs', u, hbs, hpure⟩ := bind_eq_ok hrun
    have hall := ih (fun c hc => h c (List.mem_cons_of_mem _ hc)) s bs' u trivial hbs
    cases hpure
    intro c hc
    rcases List.mem_cons.1 hc with rfl | hc
    · exact hb
    · exact hall c hc

end Act
