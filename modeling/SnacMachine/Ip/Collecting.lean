import Mathlib.Data.List.Range
import SnacMachine.Ip.Integrity

/-!
# Collecting the pieces of a packet

A packet is cut into pieces of one size (`Cut`), each a fragment under the packet's key. Whatever
the order in which the pieces arrive, the context of the key holds those that have arrived
(`Collected`), and it is full exactly when all of them have (`Collected.full_iff`).
-/

namespace SnacMachine.Ip

/-- A payload cut into pieces of `size` octets under one header, as the reader of fragments sees
them. -/
structure Cut where
  header : Bytes
  payload : Bytes
  size : Nat
  id : IpAddr × IpAddr × UInt8 × UInt32
  eight : size % 8 = 0
  pos : 0 < size
  several : size < payload.length
  fits : payload.length + overhead header ≤ 65535

namespace Cut

variable (k : Cut)

/-- The number of pieces. -/
def count : Nat := (k.payload.length + k.size - 1) / k.size

/-- The `i`-th piece. -/
def piece (i : Nat) : Bytes := (k.payload.drop (i * k.size)).take k.size

/-- The `i`-th fragment. -/
def part (i : Nat) : Fragment where
  key := (0, k.id)
  header := k.header
  offset := i * k.size
  more := decide (i * k.size + (k.piece i).length < k.payload.length)
  payload := k.piece i

variable {k} {i j : Nat}

/-- A piece is there if it starts within the payload. -/
theorem lt_count : i < k.count ↔ i * k.size < k.payload.length := by
  have hpos := k.pos
  rw [count, Nat.lt_iff_add_one_le, Nat.le_div_iff_mul_le hpos, Nat.add_mul]
  omega

/-- A piece has the common size, or what is left. -/
theorem length_piece (i : Nat) :
    (k.piece i).length = min k.size (k.payload.length - i * k.size) := by
  rw [piece, List.length_take, List.length_drop]

/-- Every piece but the last has the common size. -/
theorem length_piece_of_lt (h : i + 1 < k.count) : (k.piece i).length = k.size := by
  rw [lt_count, Nat.add_mul] at h
  rw [length_piece]
  omega

/-- The last piece ends where the payload ends. -/
theorem length_piece_last (h : i < k.count) (hl : ¬ i + 1 < k.count) :
    i * k.size + (k.piece i).length = k.payload.length := by
  rw [lt_count] at h hl
  rw [Nat.add_mul] at hl
  rw [length_piece]
  omega

/-- Every piece but the last says that more follow. -/
theorem more_part (h : i < k.count) : (k.part i).more = decide (i + 1 < k.count) := by
  simp only [part]
  refine decide_eq_decide.2 ⟨fun hm => ?_, fun hm => ?_⟩
  · by_contra hl
    have := length_piece_last h hl
    omega
  · rw [length_piece_of_lt hm]
    rw [lt_count, Nat.add_mul] at hm
    omega

/-- No piece is empty. -/
theorem piece_ne_nil (h : i < k.count) : k.piece i ≠ [] := by
  have hpos := k.pos
  rw [lt_count] at h
  refine List.length_pos_iff.1 ?_
  rw [length_piece]
  omega

/-- The end of a piece, by the pieces that follow it. -/
theorem stop_part (h : i < k.count) :
    (k.part i).stop = if i + 1 < k.count then (i + 1) * k.size else k.payload.length := by
  simp only [Fragment.stop, part]
  split
  · next hm => rw [length_piece_of_lt hm, Nat.add_mul]; omega
  · next hl => exact length_piece_last h hl

/-- A packet that is split has at least two pieces. -/
theorem one_lt_count : 1 < k.count := by
  have := k.several
  rw [lt_count]
  omega

/-- Every piece ends within the payload. -/
theorem stop_le (h : i < k.count) : (k.part i).stop ≤ k.payload.length := by
  rw [stop_part h]
  split
  · next hm => rw [lt_count] at hm; omega
  · exact Nat.le_refl _

/-- Different pieces do not overlap. -/
theorem stop_le_of_lt (h : i < j) (hj : j < k.count) : (k.part i).stop ≤ j * k.size := by
  have hi : i + 1 < k.count := by omega
  rw [stop_part (by omega), if_pos hi]
  exact Nat.mul_le_mul_right _ h

/-- Every piece is a fragment that a reassembler accepts. It is not empty, it fits, and it is not
the whole packet, of which there are several pieces. -/
theorem wellFormed_part (h : i < k.count) : Reassembler.WellFormed (k.part i) where
  part := by
    rintro ⟨h0, hm⟩
    have hpos := k.pos
    have hi : i = 0 := by
      cases Nat.mul_eq_zero.1 h0 with
      | inl h => exact h
      | inr h => omega
    rw [more_part h, hi] at hm
    have := k.one_lt_count
    simp at hm
    omega
  payload := piece_ne_nil h
  fits := by
    have := stop_le h
    have := k.fits
    simp only [part] at *
    omega

/-- Every piece but the last has whole units of eight octets. -/
theorem length_part_mod (h : i < k.count) (hm : (k.part i).more = true) :
    (k.part i).payload.length % 8 = 0 := by
  rw [more_part h, decide_eq_true_eq] at hm
  simp only [part]
  rw [length_piece_of_lt hm]
  exact k.eight

end Cut

namespace Reassembler

/-- The context holds the pieces whose numbers are in `done`. -/
structure Collected (k : Cut) (done : List Nat) (c : Context) : Prop where
  header : c.header = k.header
  stop : c.stop = if k.count - 1 ∈ done then some k.payload.length else none
  parts : ∀ e, e ∈ c.parts.entries ↔ ∃ i ∈ done, e = (i * k.size, k.piece i)

section Collected

variable {k : Cut} {done : List Nat} {c : Context} {i : Nat}

/-- A piece that is missing agrees with those that are there. Each of these is another piece of the
same cut, which ends before this one begins or begins after it ends, and the header and the end are
those of the cut. -/
theorem Collected.conflicts (h : Collected k done c) (hd : ∀ j ∈ done, j < k.count)
    (hi : i < k.count) (hn : i ∉ done) : c.conflicts (k.part i) (k.part i).stop = false := by
  have hparts : ∀ e ∈ c.parts.entries, ∃ j, j < k.count ∧ j ≠ i ∧ e.1 = j * k.size ∧
      e.1 + e.2.length = (k.part j).stop := by
    intro e he
    obtain ⟨j, hj, rfl⟩ := (h.parts e).1 he
    exact ⟨j, hd j hj, fun heq => hn (heq ▸ hj), rfl, rfl⟩
  unfold Context.conflicts
  simp only [Bool.or_eq_false_iff, bne_eq_false_iff_eq, List.any_eq_false, Bool.and_eq_true,
    decide_eq_true_eq, Bool.and_eq_false_iff, Bool.not_eq_false']
  refine ⟨⟨⟨h.header, fun e he => ?_⟩, ?_⟩, ?_⟩
  · obtain ⟨j, hj, hne, hoff, hend⟩ := hparts e he
    rw [hend, hoff]
    cases Nat.lt_or_gt_of_ne hne with
    | inl hlt =>
      have : (k.part j).stop ≤ (k.part i).offset := Cut.stop_le_of_lt hlt hi
      omega
    | inr hgt =>
      have := Cut.stop_le_of_lt hgt hj
      omega
  · rw [h.stop]
    split
    · next hlast =>
      have hlt : i + 1 < k.count := by
        have hne : i ≠ k.count - 1 := fun heq => hn (heq ▸ hlast)
        omega
      simp [Cut.more_part hi, hlt, Cut.stop_le hi]
    · rfl
  · by_cases hlt : i + 1 < k.count
    · exact .inl (by simp [Cut.more_part hi, hlt])
    · refine .inr fun e he => ?_
      obtain ⟨j, hj, -, -, hend⟩ := hparts e he
      have := Cut.stop_le hj
      rw [hend, Cut.stop_part hi, if_neg hlt]
      omega

/-- The last piece has come if it is the new one or had come before. -/
theorem mem_last_cons {done : List Nat} (hi : i < k.count) :
    k.count - 1 ∈ i :: done ↔ ¬ i + 1 < k.count ∨ k.count - 1 ∈ done := by
  rw [List.mem_cons]
  refine or_congr ⟨fun h => ?_, fun h => ?_⟩ Iff.rfl <;> omega

/-- A piece more, and what was collected is still collected: the header stays, the end is known with
the last piece, and the parts are those of the pieces that are done. -/
theorem Collected.add (h : Collected k done c) (hi : i < k.count) (hn : i ∉ done) :
    Collected k (i :: done) (c.add (k.part i) (k.part i).stop) where
  header := h.header
  stop := by
    simp only [Context.add, Cut.more_part hi, h.stop, mem_last_cons hi]
    by_cases hlt : i + 1 < k.count
    · simp [hlt]
    · simp [hlt, Cut.stop_part hi]
  parts := by
    have hpos := k.pos
    have hne : ∀ e ∈ c.parts.entries, e.1 ≠ (k.part i).offset := by
      intro e he heq
      obtain ⟨j, hj, rfl⟩ := (h.parts e).1 he
      have : j = i := Nat.eq_of_mul_eq_mul_right hpos heq
      exact hn (this ▸ hj)
    intro e
    constructor
    · intro he
      cases mem_add he with
      | inl he =>
        obtain ⟨j, hj, rfl⟩ := (h.parts e).1 he.1
        exact ⟨j, List.mem_cons_of_mem _ hj, rfl⟩
      | inr he => exact ⟨i, List.mem_cons_self, he⟩
    · rintro ⟨j, hj, rfl⟩
      cases List.mem_cons.1 hj with
      | inl hj =>
        subst hj
        exact mem_add_self c (k.part j)
      | inr hj =>
        have hm := (h.parts (j * k.size, k.piece j)).2 ⟨j, hj, rfl⟩
        exact mem_add_of_mem hm (hne _ hm)

/-- The first piece. -/
theorem Collected.create {r : Reassembler} {o : Input} (hi : i < k.count)
    (h : r.contexts.get (o.key (k.part i)) = none) :
    Collected k [i] (r.filled o (k.part i)) := by
  rw [filled_fresh h]
  refine ⟨rfl, ?_, fun e => ?_⟩
  · simp only [Cut.more_part hi, mem_last_cons hi]
    by_cases hlt : i + 1 < k.count
    · simp [hlt]
    · simp [hlt, Cut.stop_part hi]
  · simp [OrdMap.insert, OrdMap.insertList, OrdMap.empty, Cut.part]

/-- Where the `i`-th piece begins, and where the payload ends. -/
def bound (k : Cut) (i : Nat) : Nat := min (i * k.size) k.payload.length

/-- Before the end, the bound of a piece is where it starts. -/
theorem bound_of_lt (hi : i < k.count) : bound k i = i * k.size := by
  rw [Cut.lt_count] at hi
  rw [bound]
  omega

/-- The bound behind the last piece is the end of the payload. -/
theorem bound_count : bound k k.count = k.payload.length := by
  have : ¬ k.count < k.count := Nat.lt_irrefl _
  rw [Cut.lt_count] at this
  rw [bound]
  omega

/-- Every piece ends at the bound of the next one. -/
theorem bound_succ (hi : i < k.count) : i * k.size + (k.piece i).length = bound k (i + 1) := by
  by_cases hlt : i + 1 < k.count
  · rw [bound_of_lt hlt, Cut.length_piece_of_lt hlt, Nat.add_mul]
    omega
  · have hc : i + 1 = k.count := by omega
    rw [hc, bound_count]
    exact Cut.length_piece_last hi hlt

/-- A run of pieces that reaches the end of the payload leaves none out. By induction on the parts:
the run goes on at the end of each piece, which is the start of the next one. -/
theorem mem_of_runLength {parts : List (Nat × Bytes)}
    (hparts : ∀ e ∈ parts, ∃ j < k.count, e = (j * k.size, k.piece j)) (hi : i ≤ k.count)
    (h : runLength parts (bound k i) = some k.payload.length) {j : Nat} (hij : i ≤ j)
    (hj : j < k.count) : (j * k.size, k.piece j) ∈ parts := by
  have hpos := k.pos
  induction parts generalizing i with
  | nil =>
    exfalso
    have hb : bound k i = k.payload.length := Option.some.inj h
    rw [bound_of_lt (by omega)] at hb
    have := Cut.lt_count.1 (show i < k.count by omega)
    omega
  | cons e parts ih =>
    have hrest : ∀ e ∈ parts, ∃ j < k.count, e = (j * k.size, k.piece j) :=
      fun e he => hparts e (List.mem_cons_of_mem _ he)
    obtain ⟨l, hl, rfl⟩ := hparts e List.mem_cons_self
    rw [runLength] at h
    split at h
    · cases h
    · next hpos' =>
      have hil : i = l := by
        have heq := not_not.1 hpos'
        rw [bound_of_lt (by omega)] at heq
        exact (Nat.eq_of_mul_eq_mul_right hpos heq).symm
      subst hil
      by_cases hjl : j = i
      · subst hjl
        exact List.mem_cons_self
      · rw [bound_of_lt hl, bound_succ hl] at h
        exact List.mem_cons_of_mem _ (ih hrest (by omega) h (by omega))

/-- The pieces from the `i`-th on, in order, run to the end of the payload. By induction on the
sorted parts: the first one is the `i`-th, since nothing before it is there and it must be. -/
theorem runLength_of_mem {parts : List (Nat × Bytes)}
    (hsorted : parts.Pairwise fun a b => a.1 < b.1)
    (hparts : ∀ e, e ∈ parts ↔ ∃ j, i ≤ j ∧ j < k.count ∧ e = (j * k.size, k.piece j))
    (hi : i ≤ k.count) :
    runLength parts (bound k i) = some k.payload.length ∧
      (parts.map Prod.snd).flatten = k.payload.drop (bound k i) := by
  have hpos := k.pos
  induction parts generalizing i with
  | nil =>
    have hc : i = k.count := by
      by_contra hne
      have := (hparts (i * k.size, k.piece i)).2 ⟨i, Nat.le_refl _, by omega, rfl⟩
      cases this
    rw [hc, bound_count]
    exact ⟨rfl, by simp⟩
  | cons e parts ih =>
    obtain ⟨hle, htail⟩ := List.pairwise_cons.1 hsorted
    obtain ⟨j, hij, hj, rfl⟩ := (hparts e).1 List.mem_cons_self
    have hji : j = i := by
      have hmem := (hparts (i * k.size, k.piece i)).2 ⟨i, Nat.le_refl _, by omega, rfl⟩
      cases List.mem_cons.1 hmem with
      | inl heq => exact (Nat.eq_of_mul_eq_mul_right hpos (Prod.mk.inj heq).1).symm
      | inr hmem =>
        have hlt : j * k.size < i * k.size := hle _ hmem
        have := Nat.mul_le_mul_right k.size hij
        omega
    subst hji
    have hrest : ∀ e, e ∈ parts ↔
        ∃ l, j + 1 ≤ l ∧ l < k.count ∧ e = (l * k.size, k.piece l) := by
      intro e
      constructor
      · intro he
        obtain ⟨l, hjl, hl, rfl⟩ := (hparts e).1 (List.mem_cons_of_mem _ he)
        have hlt : j * k.size < l * k.size := hle _ he
        have := Nat.lt_of_mul_lt_mul_right hlt
        exact ⟨l, this, hl, rfl⟩
      · rintro ⟨l, hjl, hl, rfl⟩
        cases List.mem_cons.1 ((hparts _).2 ⟨l, by omega, hl, rfl⟩) with
        | inl heq =>
          have := Nat.eq_of_mul_eq_mul_right hpos (Prod.mk.inj heq).1
          omega
        | inr he => exact he
    obtain ⟨hrun, hflat⟩ := ih htail hrest (by omega)
    refine ⟨?_, ?_⟩
    · rw [runLength, bound_of_lt hj, if_neg (fun h => h rfl), bound_succ hj]
      exact hrun
    · rw [List.map_cons, List.flatten_cons, hflat, ← bound_succ hj, bound_of_lt hj,
        ← List.drop_drop, Cut.length_piece, Cut.piece, List.take_eq_take_min, List.length_drop]
      exact List.take_append_drop _ _

/-- A context is full exactly when every piece is there: the pieces then run to the end of the
payload, and the last of them has told that end. -/
theorem Collected.full_iff (h : Collected k done c) (hd : ∀ j ∈ done, j < k.count) :
    Full c ↔ ∀ i < k.count, i ∈ done := by
  have hpos := k.pos
  have hparts : ∀ e ∈ c.parts.entries, ∃ j < k.count, e = (j * k.size, k.piece j) := by
    intro e he
    obtain ⟨j, hj, rfl⟩ := (h.parts e).1 he
    exact ⟨j, hd j hj, rfl⟩
  have h0 : bound k 0 = 0 := by simp [bound]
  constructor
  · rintro ⟨next, hrun, hstop⟩ i hi
    rw [h.stop] at hstop
    split at hstop
    · cases hstop
      rw [← h0] at hrun
      obtain ⟨j, hj, heq⟩ := (h.parts _).1 (mem_of_runLength hparts (Nat.zero_le _) hrun
        (Nat.zero_le i) hi)
      have : i = j := Nat.eq_of_mul_eq_mul_right hpos (Prod.mk.inj heq).1
      exact this ▸ hj
    · cases hstop
  · intro hall
    refine ⟨k.payload.length, ?_, ?_⟩
    · rw [← h0]
      refine (runLength_of_mem c.parts.sorted (fun e => ?_) (Nat.zero_le _)).1
      rw [h.parts]
      exact ⟨fun ⟨j, hj, he⟩ => ⟨j, Nat.zero_le _, hd j hj, he⟩,
        fun ⟨j, _, hj, he⟩ => ⟨j, hall j hj, he⟩⟩
    · rw [h.stop, if_pos (hall _ (by have := Cut.one_lt_count (k := k); omega))]

/-- The pieces together are the payload. -/
theorem Collected.flatten (h : Collected k done c) (hd : ∀ j ∈ done, j < k.count)
    (hall : ∀ i < k.count, i ∈ done) : c.parts.values.flatten = k.payload := by
  have h0 : bound k 0 = 0 := by simp [bound]
  have := (runLength_of_mem (i := 0) c.parts.sorted (fun e => by
    rw [h.parts]
    exact ⟨fun ⟨j, hj, he⟩ => ⟨j, Nat.zero_le _, hd j hj, he⟩,
      fun ⟨j, _, hj, he⟩ => ⟨j, hall j hj, he⟩⟩) (Nat.zero_le k.count)).2
  rw [h0, List.drop_zero] at this
  exact this

end Collected

/-! ## Calls with one key -/

section Calls

variable {r : Reassembler} {o : Input} {f : Fragment} {key : Key}

/-- A call with a fragment that agrees with its context stores it: no check of its shape fails, and
there is no conflict. -/
theorem step_eq_store (hparse : parse o.bytes = .ok (some f)) (hf : WellFormed f)
    (hmod : f.more = true → f.payload.length % 8 = 0)
    (hagree : ∀ c, (r.expire o.now).contexts.get (o.key f) = some c →
      c.conflicts f f.stop = false) :
    r.step o = (r.expire o.now).store (o.key f) f f.stop o.now := by
  have hshape : ¬ (f.payload = [] ∨ f.offset + f.payload.length + overhead f.header > 65535 ∨
      f.more = true ∧ f.payload.length % 8 ≠ 0) := by
    rintro (h | h | h)
    · exact hf.payload h
    · exact Nat.not_le.2 h hf.fits
    · exact h.2 (hmod h.1)
  have hany : ¬ (((r.expire o.now).contexts.get (o.scope, f.key.2)).any
      fun c => c.conflicts f (f.offset + f.payload.length)) = true := by
    intro h
    obtain ⟨c, hc, hconf⟩ := Option.any_eq_true _ _ |>.1 h
    rw [show c.conflicts f (f.offset + f.payload.length) = false from hagree c hc] at hconf
    cases hconf
  unfold step inputScoped
  rw [hparse]
  simp only
  rw [if_neg hf.part, if_neg hshape, if_neg hany]
  rfl

/-- What a fragment that finds room does to its context: the context waits with the fragment added,
or is full, and then the packet is completed and the context is gone. -/
theorem store_of_room (hroom : (r.store key f f.stop o.now).1 ≠ .error capacity)
    (hkey : o.key f = key) :
    (¬ Full (r.filled o f) ∧ r.store key f f.stop o.now =
      (.ok none, ⟨r.contexts.insert key (r.filled o f)⟩)) ∨
    (Full (r.filled o f) ∧ r.store key f f.stop o.now =
      ((complete (r.filled o f).header (r.filled o f).parts.values.flatten).map
        fun packet => some ⟨packet, some key.2.2.2.2⟩,
        ⟨(r.contexts.insert key (r.filled o f)).remove key⟩)) := by
  subst hkey
  have hfull : ∀ next, runLength (r.filled o f).parts.entries 0 = some next →
      (Full (r.filled o f) ↔ (r.filled o f).stop = some next) := by
    intro next hrun
    refine ⟨fun h => ?_, fun h => ⟨next, hrun, h⟩⟩
    obtain ⟨next', hrun', hstop⟩ := h
    rw [hrun] at hrun'
    cases hrun'
    exact hstop
  unfold store at hroom ⊢
  by_cases hcap : (!r.contexts.contains (o.key f) ∧ r.contexts.size ≥ 64) ∨
      r.retainedBytes + r.charge (o.key f) f > cap
  · rw [if_pos hcap] at hroom
    exact absurd rfl hroom
  · rw [if_neg hcap]
    have hfilled : (r.entry (o.key f) f o.now).add f f.stop = r.filled o f := rfl
    simp only [hfilled]
    cases hrun : runLength (r.filled o f).parts.entries 0 with
    | none =>
      refine .inl ⟨fun h => ?_, rfl⟩
      obtain ⟨next, hn, -⟩ := h
      rw [hrun] at hn
      cases hn
    | some next =>
      by_cases hstop : (r.filled o f).stop = some next
      · exact .inr ⟨(hfull next hrun).2 hstop, if_neg (not_not.2 hstop)⟩
      · exact .inl ⟨fun h => hstop ((hfull next hrun).1 h), if_pos hstop⟩

/-- A call does nothing to the contexts of other keys but drop what expired. By the cases of
`Handled`: each writes at most at the key of its own fragment. -/
theorem get_step_other (h : ∀ f, parse o.bytes = .ok (some f) → o.key f ≠ key) :
    (r.step o).2.contexts.get key = (r.expire o.now).contexts.get key := by
  have hh := handled_step r o
  generalize (r.step o).1 = out at hh
  generalize (r.step o).2 = r' at hh
  cases hh with
  | malformed | whole | atomic => rfl
  | discarded f hparse => exact (OrdMap.get_remove_eq _ _ _).trans (if_neg (h f hparse).symm)
  | kept f ha => exact (OrdMap.get_insert_eq _ _ _ _).trans (if_neg (h f ha.parsed))
  | completed f ha =>
    exact ((OrdMap.get_remove_eq _ _ _).trans (if_neg (h f ha.parsed).symm)).trans
      ((OrdMap.get_insert_eq _ _ _ _).trans (if_neg (h f ha.parsed)))

/-- A context that has not expired. -/
theorem get_expire {c : Context} (h : r.contexts.get key = some c) (hnow : o.now < c.deadline) :
    (r.expire o.now).contexts.get key = some c := by
  simp only [expire, OrdMap.get_retain_values, Option.filter_eq_some_iff, decide_eq_true_eq]
  exact ⟨h, hnow⟩

/-- Expiry brings no context back. -/
theorem get_expire_none (h : r.contexts.get key = none) (now : Nat) :
    (r.expire now).contexts.get key = none := by
  simp only [expire, OrdMap.get_retain_values, h, Option.filter_none]

end Calls

/-! ## Sequences of calls -/

/-- The calls of a sequence with their answers. -/
def answers (r : Reassembler) : List Input → List (Input × Except IoError (Option Datagram))
  | [] => []
  | o :: ops => (o, (r.step o).1) :: answers (r.step o).2 ops

/-- The reassembler after a sequence of calls. -/
def run (r : Reassembler) (ops : List Input) : Reassembler :=
  ops.foldl (fun r o => (r.step o).2) r

/-- A call with one of the packets `fs`, in a scope. -/
def ours (scope : UInt8) (fs : List Bytes) (o : Input) : Bool :=
  decide (o.scope = scope ∧ o.bytes ∈ fs)

/-- The answers to the calls with one of the packets `fs`, in order. -/
def answersTo (scope : UInt8) (fs : List Bytes) (r : Reassembler) (ops : List Input) :
    List (Except IoError (Option Datagram)) :=
  ((answers r ops).filter fun p => ours scope fs p.1).map Prod.snd

/-- Calls in the order of time, of which those with the packets `fs` arrive within the life of a
context and find room, and the others are not under the key of `fs`. -/
structure Arrivals (scope : UInt8) (fs : List Bytes) (key : Key) (r : Reassembler)
    (ops : List Input) : Prop where
  sorted : ops.Pairwise fun a b => a.now ≤ b.now
  within : ∀ a ∈ ops, ours scope fs a = true → ∀ b ∈ ops, ours scope fs b = true →
    b.now < satAdd a.now 60000
  room : ∀ p ∈ answers r ops, ours scope fs p.1 = true → p.2 ≠ .error capacity
  others : ∀ o ∈ ops, ours scope fs o = false → ∀ f, parse o.bytes = .ok (some f) → o.key f ≠ key

section Sequences

variable {scope : UInt8} {fs : List Bytes} {key : Key} {r : Reassembler} {o : Input}
  {ops : List Input}

/-- What arrives after the first packet is what is still to arrive. -/
theorem Arrivals.tail (h : Arrivals scope fs key r (o :: ops)) :
    Arrivals scope fs key (r.step o).2 ops where
  sorted := (List.pairwise_cons.1 h.sorted).2
  within := fun a ha hoa b hb hob =>
    h.within a (List.mem_cons_of_mem _ ha) hoa b (List.mem_cons_of_mem _ hb) hob
  room := fun p hp => h.room p (List.mem_cons_of_mem _ hp)
  others := fun o ho => h.others o (List.mem_cons_of_mem _ ho)

/-- A packet of ours adds its own answer. -/
theorem answersTo_ours (h : ours scope fs o = true) :
    answersTo scope fs r (o :: ops) = (r.step o).1 :: answersTo scope fs (r.step o).2 ops := by
  simp [answersTo, answers, h]

/-- A packet of others adds no answer. -/
theorem answersTo_other (h : ours scope fs o = false) :
    answersTo scope fs r (o :: ops) = answersTo scope fs (r.step o).2 ops := by
  simp [answersTo, answers, h]

/-- Once all pieces have arrived, nothing happens under their key. -/
theorem Arrivals.done (h : Arrivals scope fs key r ops) (hnone : r.contexts.get key = none)
    (hours : ∀ o ∈ ops, ours scope fs o = false) :
    answersTo scope fs r ops = [] ∧ (r.run ops).contexts.get key = none := by
  induction ops generalizing r with
  | nil => exact ⟨rfl, hnone⟩
  | cons o ops ih =>
    have ho := hours o List.mem_cons_self
    rw [answersTo_other ho]
    refine ih h.tail ?_ fun p hp => hours p (List.mem_cons_of_mem _ hp)
    rw [get_step_other (h.others o List.mem_cons_self ho)]
    exact get_expire_none hnone _

end Sequences

section Collecting

variable {k : Cut} {scope : UInt8} {bytes : Nat → Bytes} {packet : Bytes} {r : Reassembler}
  {o : Input} {ops : List Input} {done left : List Nat} {i : Nat}

/-- The packets that carry the pieces of a cut. -/
def packets (k : Cut) (bytes : Nat → Bytes) : List Bytes := (List.range k.count).map bytes

/-- The pieces `done` have arrived, and their context lives until the last of the calls. -/
def Waiting (k : Cut) (scope : UInt8) (bytes : Nat → Bytes) (r : Reassembler) (done : List Nat)
    (ops : List Input) : Prop :=
  done = [] ∧ r.contexts.get (scope, k.id) = none ∨
    ∃ c, r.contexts.get (scope, k.id) = some c ∧ Collected k done c ∧
      ∀ a ∈ ops, ours scope (packets k bytes) a = true → a.now < c.deadline

/-- A call with a piece that is missing: the context with the piece, and the calls that follow. The
context is new, or alive with the pieces that are done. -/
theorem Waiting.filled (h : Waiting k scope bytes r done (o :: ops))
    (ha : Arrivals scope (packets k bytes) (scope, k.id) r (o :: ops))
    (ho : ours scope (packets k bytes) o = true) (hd : ∀ j ∈ done, j < k.count)
    (hi : i < k.count) (hn : i ∉ done) :
    (∀ c, (r.expire o.now).contexts.get (scope, k.id) = some c →
      c.conflicts (k.part i) (k.part i).stop = false) ∧
    Collected k (i :: done) ((r.expire o.now).filled o (k.part i)) ∧
    ∀ a ∈ ops, ours scope (packets k bytes) a = true →
      a.now < ((r.expire o.now).filled o (k.part i)).deadline := by
  have hscope : o.scope = scope := (of_decide_eq_true ho).1
  have hkey : o.key (k.part i) = (scope, k.id) := by rw [← hscope]; rfl
  obtain ⟨rfl, hnone⟩ | ⟨c, hget, hc, hnow⟩ := h
  · have hnone := get_expire_none hnone o.now
    rw [← hkey] at hnone
    refine ⟨fun c hc => ?_, Collected.create hi hnone, fun a hma hoa => ?_⟩
    · rw [← hkey, hnone] at hc
      cases hc
    · rw [filled_fresh hnone]
      exact ha.within o List.mem_cons_self ho a (List.mem_cons_of_mem _ hma) hoa
  · have hget := get_expire hget (hnow o List.mem_cons_self ho)
    rw [← hkey] at hget
    refine ⟨fun c' hc' => ?_, ?_, fun a hma hoa => ?_⟩
    · rw [← hkey, hget] at hc'
      cases hc'
      exact hc.conflicts hd hi hn
    · rw [filled_present hget]
      exact hc.add hi hn
    · rw [filled_present hget]
      exact hnow a (List.mem_cons_of_mem _ hma) hoa

/-- A call with a piece that is missing answers nothing, or the packet if it was the last one. The
piece is admitted (`Waiting.filled`), so that the context is full exactly if no piece is missing
then. -/
theorem Waiting.step (hparse : ∀ i < k.count, parse (bytes i) = .ok (some (k.part i)))
    (hpacket : complete k.header k.payload = .ok packet)
    (h : Waiting k scope bytes r done (o :: ops))
    (ha : Arrivals scope (packets k bytes) (scope, k.id) r (o :: ops))
    (ho : ours scope (packets k bytes) o = true) (hd : ∀ j ∈ done, j < k.count)
    (hi : i < k.count) (hn : i ∉ done) (hbytes : o.bytes = bytes i) :
    (∃ j < k.count, j ∉ i :: done) ∧ (r.step o).1 = .ok none ∧
        Waiting k scope bytes (r.step o).2 (i :: done) ops ∨
      (∀ j < k.count, j ∈ i :: done) ∧ (r.step o).1 = .ok (some ⟨packet, some k.id.2.2.2⟩) ∧
        (r.step o).2.contexts.get (scope, k.id) = none := by
  obtain ⟨hagree, hc, hnow⟩ := h.filled ha ho hd hi hn
  have hscope : o.scope = scope := (of_decide_eq_true ho).1
  have hkey : o.key (k.part i) = (scope, k.id) := by rw [← hscope]; rfl
  have hd' : ∀ j ∈ i :: done, j < k.count := by
    intro j hj
    cases List.mem_cons.1 hj with
    | inl hj => rw [hj]; exact hi
    | inr hj => exact hd j hj
  have hstep :
      r.step o = (r.expire o.now).store (scope, k.id) (k.part i) (k.part i).stop o.now := by
    have := step_eq_store (r := r) (o := o) (hbytes ▸ hparse i hi) (Cut.wellFormed_part hi)
      (Cut.length_part_mod hi) (hkey ▸ hagree)
    rw [this, hkey]
  have hroom : ((r.expire o.now).store (scope, k.id) (k.part i) (k.part i).stop o.now).1 ≠
      .error capacity := by
    rw [← hstep]
    exact ha.room (o, (r.step o).1) List.mem_cons_self ho
  obtain ⟨hfull, hstore⟩ | ⟨hfull, hstore⟩ := store_of_room hroom hkey
  · left
    rw [hc.full_iff hd'] at hfull
    obtain ⟨j, hj⟩ := not_forall.1 hfull
    obtain ⟨hlt, hmissing⟩ := Classical.not_imp.1 hj
    refine ⟨⟨j, hlt, hmissing⟩, by rw [hstep, hstore], .inr ⟨_, ?_, hc, hnow⟩⟩
    rw [hstep, hstore]
    exact OrdMap.get_insert_self _ _ _
  · right
    have hall := (hc.full_iff hd').1 hfull
    rw [hc.header, hc.flatten hd' hall, hpacket] at hstore
    refine ⟨hall, by rw [hstep, hstore]; rfl, ?_⟩
    rw [hstep, hstore]
    exact OrdMap.get_remove_self _ _

/-- The pieces that have arrived and those that are left. -/
structure Split (k : Cut) (done left : List Nat) : Prop where
  perm : (done ++ left).Perm (List.range k.count)

/-- The pieces that came and those still to come are all pieces. -/
theorem Split.lt (h : Split k done left) : ∀ j ∈ done ++ left, j < k.count := by
  intro j hj
  exact List.mem_range.1 (h.perm.mem_iff.1 hj)

/-- What is still to come has not come. -/
theorem Split.notMem (h : Split k done left) (hi : i ∈ left) : i ∉ done := by
  intro hd
  have := h.perm.nodup_iff.2 List.nodup_range
  exact (List.nodup_append.1 this).2.2 i hd i hi rfl

/-- A piece that comes moves from those still to come to those that came. -/
theorem Split.move (h : Split k done left) (hi : i ∈ left) :
    Split k (i :: done) (left.erase i) where
  perm := by
    have hfront : (i :: done ++ left.erase i).Perm (done ++ i :: left.erase i) :=
      List.perm_middle.symm
    exact hfront.trans (((List.perm_cons_erase hi).symm.append_left done).trans h.perm)

/-- Everything has arrived exactly when nothing is left. -/
theorem Split.left_eq_nil (h : Split k done left) : left = [] ↔ ∀ j < k.count, j ∈ done := by
  constructor
  · rintro rfl j hj
    have := h.perm.mem_iff.2 (List.mem_range.2 hj)
    rwa [List.append_nil] at this
  · intro hall
    by_contra hne
    obtain ⟨j, hj⟩ := List.exists_mem_of_ne_nil left hne
    exact h.notMem hj (hall j (h.lt j (List.mem_append_right _ hj)))

/-- In whatever order the pieces that are left arrive, all calls but the last answer nothing, the
last one answers the packet, and no context remains. -/
theorem Waiting.collect (hparse : ∀ i < k.count, parse (bytes i) = .ok (some (k.part i)))
    (hpacket : complete k.header k.payload = .ok packet) (hsplit : Split k done left)
    (hleft : left ≠ [])
    (hperm : ((ops.filter (ours scope (packets k bytes))).map Input.bytes).Perm (left.map bytes))
    (h : Waiting k scope bytes r done ops)
    (ha : Arrivals scope (packets k bytes) (scope, k.id) r ops) :
    answersTo scope (packets k bytes) r ops =
        List.replicate (left.length - 1) (.ok none) ++ [.ok (some ⟨packet, some k.id.2.2.2⟩)] ∧
      (r.run ops).contexts.get (scope, k.id) = none := by
  induction ops generalizing r done left with
  | nil =>
    exfalso
    have := hperm.length_eq
    rw [List.filter_nil, List.map_nil, List.length_nil, List.length_map] at this
    exact hleft (List.length_eq_zero_iff.1 this.symm)
  | cons o ops ih =>
    cases ho : ours scope (packets k bytes) o with
    | false =>
      rw [List.filter_cons, ho, if_neg Bool.false_ne_true] at hperm
      rw [answersTo_other ho]
      have hother := get_step_other (r := r) (ha.others o List.mem_cons_self ho)
      refine ih hsplit hleft hperm ?_ ha.tail
      obtain ⟨hdone, hnone⟩ | ⟨c, hget, hc, hnow⟩ := h
      · exact .inl ⟨hdone, by rw [hother]; exact get_expire_none hnone _⟩
      · -- Some piece is still to come, and the context lives until then.
        obtain ⟨j, hj⟩ := List.exists_mem_of_ne_nil left hleft
        obtain ⟨a, hma, -⟩ := List.mem_map.1 (hperm.mem_iff.2 (List.mem_map_of_mem hj))
        obtain ⟨hma, hoa⟩ := List.mem_filter.1 hma
        have hlt : o.now < c.deadline :=
          Nat.lt_of_le_of_lt ((List.pairwise_cons.1 ha.sorted).1 a hma)
            (hnow a (List.mem_cons_of_mem _ hma) hoa)
        exact .inr ⟨c, by rw [hother]; exact get_expire hget hlt, hc,
          fun a ha => hnow a (List.mem_cons_of_mem _ ha)⟩
    | true =>
      rw [List.filter_cons, ho, if_pos rfl, List.map_cons] at hperm
      obtain ⟨i, hi, hbytes⟩ := List.mem_map.1 (hperm.mem_iff.1 List.mem_cons_self)
      have hmove := hsplit.move hi
      have hlen : (left.erase i).length = left.length - 1 := List.length_erase_of_mem hi
      have hrest : ((ops.filter (ours scope (packets k bytes))).map Input.bytes).Perm
          ((left.erase i).map bytes) := by
        refine List.Perm.cons_inv (a := o.bytes) (hperm.trans ?_)
        rw [← hbytes]
        exact (List.perm_cons_erase hi).map bytes
      rw [answersTo_ours ho]
      obtain ⟨hmiss, hstep, hwait⟩ | ⟨hall, hstep, hnone⟩ := h.step hparse hpacket ha ho
        (fun j hj => hsplit.lt j (List.mem_append_left _ hj))
        (hsplit.lt i (List.mem_append_right _ hi)) (hsplit.notMem hi) hbytes.symm
      · have hne : left.erase i ≠ [] := by
          intro hnil
          obtain ⟨j, hj, hm⟩ := hmiss
          exact hm (hmove.left_eq_nil.1 hnil j hj)
        obtain ⟨hans, hend⟩ := ih hmove hne hrest hwait ha.tail
        have hpos : 0 < (left.erase i).length := List.length_pos_iff.2 hne
        refine ⟨?_, hend⟩
        rw [hans, hstep, hlen, ← List.cons_append, ← List.replicate_succ,
          show left.length - 1 - 1 + 1 = left.length - 1 by omega]
      · have hnil := hmove.left_eq_nil.2 hall
        rw [hnil, List.map_nil] at hrest
        have hours : ∀ p ∈ ops, ours scope (packets k bytes) p = false := by
          intro p hp
          have := List.map_eq_nil_iff.1 hrest.eq_nil
          exact Bool.eq_false_iff.2 (List.filter_eq_nil_iff.1 this p hp)
        obtain ⟨hans, hend⟩ := ha.tail.done hnone hours
        rw [hnil, List.length_nil] at hlen
        refine ⟨?_, hend⟩
        rw [hans, hstep, ← hlen]
        rfl

end Collecting

end Reassembler

end SnacMachine.Ip
