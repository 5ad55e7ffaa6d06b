import Mathlib.Data.List.Induction
import SnacMachine.Ip.Reassembly

/-!
# What a reassembler delivers

Along every sequence of packets, whatever they are, a datagram that a reassembler delivers is made
of fragments that it received under one key and one header, in one life of their context
(`Delivery`). The accounting: `Gathered` says where the parts of a context come from, every call
keeps it (`gathered_step`), and a delivery reads it off (`Gathered.delivery`).
-/

namespace SnacMachine.Ip

/-! ## Calls -/

/-- A packet that arrives. -/
structure Input where
  bytes : Bytes
  now : Nat
  scope : UInt8

/-- The key under which a fragment is collected. -/
def Input.key (o : Input) (f : Fragment) : Key := (o.scope, f.key.2)

/-- The end of a fragment. -/
def Fragment.stop (f : Fragment) : Nat := f.offset + f.payload.length

namespace Reassembler

/-- One call. -/
def step (r : Reassembler) (o : Input) : Except IoError (Option Datagram) × Reassembler :=
  r.inputScoped o.bytes o.now o.scope

/-- The reassembler after a sequence of calls. -/
def after (ops : List Input) : Reassembler := ops.foldl (fun r o => (r.step o).2) default

/-- The state after one more packet. -/
@[simp] theorem after_snoc (ops : List Input) (o : Input) :
    after (ops ++ [o]) = ((after ops).step o).2 := by
  simp [after]

/-- The fragment is one part of a packet, and one that a context can hold. -/
structure WellFormed (f : Fragment) : Prop where
  part : ¬ (f.offset = 0 ∧ !f.more)
  payload : f.payload ≠ []
  fits : f.stop + overhead f.header ≤ 65535

/-- The fragment passes every check of a reassembler that has dropped what expired. -/
structure Accepted (r : Reassembler) (o : Input) (f : Fragment) : Prop where
  parsed : parse o.bytes = .ok (some f)
  shape : WellFormed f
  agrees : ∀ c, r.contexts.get (o.key f) = some c → c.conflicts f f.stop = false
  room : (r.contexts.get (o.key f) = none → r.contexts.size < 64) ∧
    r.retainedBytes + r.charge (o.key f) f ≤ cap

/-- The context of a fragment once the fragment is added. -/
def filled (r : Reassembler) (o : Input) (f : Fragment) : Context :=
  (r.entry (o.key f) f o.now).add f f.stop

/-- The context holds every part of its packet. -/
def Full (c : Context) : Prop :=
  ∃ next, runLength c.parts.entries 0 = some next ∧ c.stop = some next

/-- What a call answers and leaves behind, from a reassembler that has dropped what expired. -/
inductive Handled (r : Reassembler) (o : Input) :
    Except IoError (Option Datagram) → Reassembler → Prop
  | malformed (e : IoError) : Handled r o (.error e) r
  | whole : parse o.bytes = .ok none → Handled r o (.ok (some ⟨o.bytes, none⟩)) r
  | atomic (f : Fragment) : parse o.bytes = .ok (some f) → f.offset = 0 → f.more = false →
      Handled r o ((complete f.header f.payload).map fun packet =>
        some ⟨packet, some (o.key f).2.2.2.2⟩) r
  | discarded (f : Fragment) : parse o.bytes = .ok (some f) →
      Handled r o (.error invalid) ⟨r.contexts.remove (o.key f)⟩
  | kept (f : Fragment) : Accepted r o f → ¬ Full (r.filled o f) →
      Handled r o (.ok none) ⟨r.contexts.insert (o.key f) (r.filled o f)⟩
  | completed (f : Fragment) : Accepted r o f → Full (r.filled o f) →
      Handled r o ((complete (r.filled o f).header (r.filled o f).parts.values.flatten).map
        fun packet => some ⟨packet, some (o.key f).2.2.2.2⟩)
        ⟨(r.contexts.insert (o.key f) (r.filled o f)).remove (o.key f)⟩

/-- Storing an accepted fragment completes the packet, or keeps the fragment, or fails; this is the
step that was to be handled. -/
theorem handled_store {r : Reassembler} {o : Input} {f : Fragment}
    (parsed : parse o.bytes = .ok (some f)) (shape : WellFormed f)
    (agrees : ∀ c, r.contexts.get (o.key f) = some c → c.conflicts f f.stop = false) :
    Handled r o (r.store (o.key f) f f.stop o.now).1 (r.store (o.key f) f f.stop o.now).2 := by
  unfold store
  by_cases hroom : (!r.contexts.contains (o.key f) ∧ r.contexts.size ≥ 64) ∨
      r.retainedBytes + r.charge (o.key f) f > cap
  · rw [if_pos hroom]
    exact .malformed _
  · have hfresh : r.contexts.get (o.key f) = none → r.contexts.size < 64 := by
      intro hn
      have hc := OrdMap.contains_eq_false_iff.2 hn
      by_contra hge
      exact hroom (.inl ⟨by simp [hc], by omega⟩)
    have hcap : r.retainedBytes + r.charge (o.key f) f ≤ cap := by
      by_contra hgt
      exact hroom (.inr (Nat.lt_of_not_le hgt))
    have ha : Accepted r o f := ⟨parsed, shape, agrees, hfresh, hcap⟩
    rw [if_neg hroom]
    simp only
    split
    · next hgap =>
      refine .kept f ha fun h => ?_
      obtain ⟨next, hn, -⟩ := h
      rw [filled, hgap] at hn
      cases hn
    · next next hrun =>
      split
      · next hstop =>
        refine .kept f ha fun h => hstop ?_
        obtain ⟨next', hn, hs⟩ := h
        rw [filled, hrun] at hn
        cases hn
        exact hs
      · next hstop => exact .completed f ha ⟨next, hrun, not_not.1 hstop⟩

/-- Every call is one of the cases. The branches of the source are followed; what is stored is a
fragment that is well formed and in no conflict with its context. -/
theorem handled_step (r : Reassembler) (o : Input) :
    Handled (r.expire o.now) o (r.step o).1 (r.step o).2 := by
  unfold step inputScoped
  simp only
  generalize r.expire o.now = r
  split
  · exact .malformed _
  · next h => exact .whole h
  · next f h =>
    split
    · next h0 => exact .atomic f h h0.1 (by simpa using h0.2)
    · next h0 =>
      split
      · exact .malformed _
      · next hs =>
        split
        · exact .discarded f h
        · next hc =>
          have hs : WellFormed f := ⟨h0, fun hp => hs (.inl hp), by
            by_contra hgt
            exact hs (.inr (.inl (Nat.lt_of_not_le hgt)))⟩
          refine handled_store h hs fun c hget => ?_
          have hkey : r.contexts.get (o.scope, f.key.2) = some c := hget
          rw [hkey] at hc
          exact Bool.eq_false_iff.2 hc

/-! ## Contexts fit -/

/-- The context holds some part, no empty one, and none that ends behind the longest packet of its
family. -/
structure Sound (c : Context) : Prop where
  some : c.parts.entries ≠ []
  nonempty : ∀ e ∈ c.parts.entries, e.2 ≠ []
  fits : ∀ e ∈ c.parts.entries, e.1 + e.2.length + overhead c.header ≤ 65535

/-- Parts that follow one another end with the last one, and hold that many octets. By induction on
the parts. -/
theorem runLength_eq_some {parts : List (Nat × Bytes)} {pos next : Nat}
    (h : runLength parts pos = some next) :
    next = pos + (parts.map Prod.snd).flatten.length ∧
      (parts ≠ [] → ∃ e ∈ parts, e.1 + e.2.length = next) := by
  induction parts generalizing pos with
  | nil =>
    cases h
    exact ⟨by simp, fun hne => absurd rfl hne⟩
  | cons e parts ih =>
    obtain ⟨at', b⟩ := e
    unfold runLength at h
    split at h
    · cases h
    · next hpos =>
      obtain ⟨hlen, hlast⟩ := ih h
      refine ⟨?_, fun _ => ?_⟩
      · simp only [List.map_cons, List.flatten_cons, List.length_append]
        omega
      · cases parts with
        | nil =>
          cases h
          exact ⟨_, List.mem_cons_self, by simp only; omega⟩
        | cons e' parts =>
          obtain ⟨e, he, hn⟩ := hlast (by simp)
          exact ⟨e, List.mem_cons_of_mem _ he, hn⟩

/-- A packet whose parts fit the length field can be completed. -/
theorem complete_isOk {header data : Bytes} (h : overhead header + data.length ≤ 65535) :
    ∃ packet, complete header data = .ok packet := by
  unfold overhead at h
  unfold complete
  by_cases h6 : isV6 header = true
  · rw [if_pos h6] at h ⊢
    exact ⟨_, if_neg (by omega)⟩
  · rw [if_neg h6] at h ⊢
    exact ⟨_, if_neg (by omega)⟩

/-- A context that holds every part of its packet can be completed. -/
theorem Sound.complete {c : Context} (h : Sound c) (hfull : Full c) :
    ∃ packet, complete c.header c.parts.values.flatten = .ok packet := by
  obtain ⟨next, hrun, -⟩ := hfull
  obtain ⟨hlen, hlast⟩ := runLength_eq_some hrun
  obtain ⟨e, he, hend⟩ := hlast h.some
  have := h.fits e he
  have hvalues : c.parts.values = c.parts.entries.map Prod.snd := rfl
  refine complete_isOk ?_
  rw [hvalues]
  omega

section Filled

variable {r : Reassembler} {o : Input} {f : Fragment}

/-- A context that a fragment agrees with. -/
structure Agrees (c : Context) (f : Fragment) : Prop where
  header : c.header = f.header
  apart : ∀ e ∈ c.parts.entries, e.1 + e.2.length ≤ f.offset ∨ f.stop ≤ e.1
  within : ∀ s, c.stop = some s → f.stop ≤ s ∧ (f.more = false → f.stop = s)
  last : f.more = false → ∀ e ∈ c.parts.entries, e.1 + e.2.length ≤ f.stop

/-- A fragment that conflicts with nothing agrees with what is there. The tests of `conflicts` are
read one by one. -/
theorem agrees_of_conflicts {c : Context} (h : c.conflicts f f.stop = false) : Agrees c f := by
  unfold Context.conflicts at h
  simp only [Bool.or_eq_false_iff, bne_eq_false_iff_eq, List.any_eq_false, Bool.and_eq_true,
    decide_eq_true_eq, not_and, Bool.and_eq_false_iff, Bool.not_eq_false'] at h
  obtain ⟨⟨⟨hheader, hapart⟩, hstop⟩, hlast⟩ := h
  refine ⟨hheader, fun e he => ?_, fun s hs => ?_, fun hm e he => ?_⟩
  · have := hapart e he
    omega
  · rw [hs] at hstop
    simp only [Option.any_some, Bool.or_eq_false_iff, decide_eq_false_iff_not,
      Bool.and_eq_false_iff, Bool.not_eq_false', bne_eq_false_iff_eq] at hstop
    refine ⟨by omega, fun hm => ?_⟩
    cases hstop.2 with
    | inl h => rw [hm] at h; cases h
    | inr h => exact h
  · cases hlast with
    | inl h => rw [hm] at h; cases h
    | inr h =>
      have := h e he
      omega

/-- No part of the context begins where the fragment does. Neither of the two would be empty, so
they would overlap. -/
theorem Agrees.get_offset {c : Context} (h : Agrees c f) (hc : Sound c) (hp : f.payload ≠ []) :
    c.parts.get f.offset = none := by
  have hpos : 0 < f.payload.length := List.length_pos_iff.2 hp
  cases hget : c.parts.get f.offset with
  | none => rfl
  | some b =>
    have hmem := OrdMap.mem_iff_get.2 hget
    have hb : 0 < b.length := List.length_pos_iff.2 (hc.nonempty _ hmem)
    have := h.apart _ hmem
    unfold Fragment.stop at this
    simp only at this
    omega

/-- The first fragment of a packet opens a context. -/
theorem filled_fresh (h : r.contexts.get (o.key f) = none) :
    r.filled o f = ⟨f.header, OrdMap.empty.insert f.offset f.payload,
      if !f.more then some f.stop else none, satAdd o.now 60000⟩ := by
  unfold filled entry
  rw [h]
  rfl

/-- A later fragment of a packet is added to its context. -/
theorem filled_present {c : Context} (h : r.contexts.get (o.key f) = some c) :
    r.filled o f = c.add f f.stop := by
  unfold filled entry
  rw [h]
  rfl

/-- What a context holds afterwards was there before or is the new fragment. -/
theorem mem_add {c : Context} {e : Nat × Bytes} (h : e ∈ (c.add f f.stop).parts.entries) :
    e ∈ c.parts.entries ∧ e.1 ≠ f.offset ∨ e = (f.offset, f.payload) := by
  cases OrdMap.mem_entries_insert h with
  | inl h => exact .inl ⟨h.1, fun he => h.2 (sameKey_iff.2 he)⟩
  | inr h => exact .inr (Prod.ext (sameKey_iff.1 h.1) h.2)

/-- The new fragment is in the context. -/
theorem mem_add_self (c : Context) (f : Fragment) :
    (f.offset, f.payload) ∈ (c.add f f.stop).parts.entries :=
  OrdMap.mem_iff_get.2 (OrdMap.get_insert_self _ _ _)

/-- What was at other offsets stays in the context. -/
theorem mem_add_of_mem {c : Context} {e : Nat × Bytes} (h : e ∈ c.parts.entries)
    (hne : e.1 ≠ f.offset) : e ∈ (c.add f f.stop).parts.entries := by
  refine OrdMap.mem_iff_get.2 ?_
  rw [Context.add, OrdMap.get_insert_of_ne _ _ fun hs => hne (sameKey_iff.1 hs).symm]
  exact OrdMap.mem_iff_get.1 h

/-- Adding a fragment keeps a context sound. The parts are those that were there and the new one,
which fits with the same header. -/
theorem Sound.add {c : Context} (h : c.parts.entries = [] ∨ Sound c) (hf : WellFormed f)
    (hh : c.header = f.header) : Sound (c.add f f.stop) := by
  have hold : ∀ e ∈ c.parts.entries, e.2 ≠ [] ∧ e.1 + e.2.length + overhead c.header ≤ 65535 := by
    intro e he
    cases h with
    | inl h => rw [h] at he; cases he
    | inr h => exact ⟨h.nonempty e he, h.fits e he⟩
  have hnew := hf.fits
  refine ⟨List.ne_nil_of_mem (mem_add_self c f), fun e he => ?_, fun e he => ?_⟩
  · cases mem_add he with
    | inl h => exact (hold e h.1).1
    | inr h => rw [h]; exact hf.payload
  · cases mem_add he with
    | inl h => exact (hold e h.1).2
    | inr h =>
      rw [h]
      simp only [Context.add, hh]
      exact hnew

/-- A context with the new fragment is sound, whether it was there before or not. -/
theorem Accepted.sound_filled (h : Accepted r o f)
    (hr : ∀ key c, r.contexts.get key = some c → Sound c) : Sound (r.filled o f) := by
  cases hget : r.contexts.get (o.key f) with
  | none =>
    unfold filled entry
    rw [hget]
    exact Sound.add (.inl rfl) h.shape rfl
  | some c =>
    rw [filled_present hget]
    exact Sound.add (.inr (hr _ c hget)) h.shape (agrees_of_conflicts (h.agrees c hget)).header

/-! ## Accounting -/

/-- What is charged in all is the total over the contexts. -/
theorem retainedBytes_eq (r : Reassembler) :
    r.retainedBytes = r.contexts.total fun _ c => c.bytes := by
  simp [retainedBytes, OrdMap.total, OrdMap.values, Function.comp_def]

/-- What a context is charged for: itself, its header, and its fragments. -/
theorem bytes_eq (c : Context) :
    c.bytes = 128 + c.header.length + c.parts.total fun _ b => b.length + 128 := by
  simp [Context.bytes, OrdMap.total, OrdMap.values, Function.comp_def]

/-- What the context of an accepted fragment costs more than before is what it is charged: the
context itself if it is new, and the part if it was not there yet. -/
theorem Accepted.retained_filled (h : Accepted r o f)
    (hr : ∀ key c, r.contexts.get key = some c → Sound c) :
    (⟨r.contexts.insert (o.key f) (r.filled o f)⟩ : Reassembler).retainedBytes =
      r.retainedBytes + r.charge (o.key f) f := by
  rw [retainedBytes_eq, retainedBytes_eq]
  cases hget : r.contexts.get (o.key f) with
  | none =>
    have hc : r.contexts.contains (o.key f) = false := OrdMap.contains_eq_false_iff.2 hget
    rw [OrdMap.total_insert_of_none hget, charge, hc, filled_fresh hget, bytes_eq,
      OrdMap.total_insert_of_none rfl]
    simp only [OrdMap.total_empty, Bool.not_false, if_true]
    omega
  | some c =>
    have hc : r.contexts.contains (o.key f) = true := OrdMap.contains_iff.2 ⟨c, hget⟩
    have hparts : c.parts.get f.offset = none :=
      (agrees_of_conflicts (h.agrees c hget)).get_offset (hr _ c hget) h.shape.payload
    have hsum := OrdMap.total_insert_of_some (f := fun _ c => c.bytes)
      (v := r.filled o f) hget
    have hadd : (c.add f f.stop).bytes = c.bytes + (f.payload.length + 128) := by
      simp only [bytes_eq, Context.add, OrdMap.total_insert_of_none hparts]
      omega
    rw [filled_present hget] at hsum ⊢
    simp only [charge, hc, Bool.not_true, Bool.false_eq_true, if_false]
    omega

end Filled

/-- What every call keeps: the number of contexts, their cost, and that each can be completed. -/
structure Bounded (r : Reassembler) : Prop where
  count : r.contexts.size ≤ 64
  retained : r.retainedBytes ≤ cap
  sound : ∀ key c, r.contexts.get key = some c → Sound c

/-- Dropping contexts keeps the bounds. -/
theorem Bounded.retain {r : Reassembler} (h : Bounded r) (p : Key → Context → Bool) :
    Bounded ⟨r.contexts.retain p⟩ where
  count := Nat.le_trans (OrdMap.size_retain_le _ _) h.count
  retained := by
    have := h.retained
    rw [retainedBytes_eq] at this ⊢
    exact Nat.le_trans (OrdMap.total_retain_le _ _ _) this
  sound := by
    intro key c hget
    rw [OrdMap.get_retain_lawful, Option.filter_eq_some_iff] at hget
    exact h.sound key c hget.1

/-- Removing a context keeps the limits. -/
theorem Bounded.remove {r : Reassembler} (h : Bounded r) (key : Key) :
    Bounded ⟨r.contexts.remove key⟩ := h.retain _

/-- Adding an accepted fragment keeps the limits, for they were checked with it. The number of
contexts grows only if the key is new. -/
theorem Bounded.insert {r : Reassembler} {o : Input} {f : Fragment} (h : Bounded r)
    (ha : Accepted r o f) : Bounded ⟨r.contexts.insert (o.key f) (r.filled o f)⟩ where
  count := by
    cases hget : r.contexts.get (o.key f) with
    | none =>
      have := ha.room.1 hget
      simp only [OrdMap.size_insert_of_get_none _ hget]
      omega
    | some c =>
      simp only [OrdMap.size_insert_of_contains _ (OrdMap.contains_iff.2 ⟨c, hget⟩)]
      exact h.count
  retained := by
    rw [ha.retained_filled h.sound]
    exact ha.room.2
  sound := by
    intro key c hget
    rw [OrdMap.get_insert] at hget
    split at hget
    · cases hget
      exact ha.sound_filled h.sound
    · exact h.sound key c hget

/-- Every step keeps the limits. -/
theorem Bounded.handled {r r' : Reassembler} {o : Input} {out : Except IoError (Option Datagram)}
    (h : Bounded r) (hh : Handled r o out r') : Bounded r' := by
  cases hh with
  | malformed | whole | atomic => exact h
  | discarded f => exact h.remove _
  | kept f ha => exact h.insert ha
  | completed f ha => exact (h.insert ha).remove _

/-- The bounds hold after every sequence of calls. -/
theorem bounded_after (ops : List Input) : Bounded (after ops) := by
  induction ops using List.reverseRecOn with
  | nil => exact ⟨by simp [after, default], by decide, fun _ _ h => by simp [after, default] at h⟩
  | append_singleton ops o ih =>
    rw [after_snoc]
    exact Bounded.handled (ih.retain _) (handled_step _ o)

/-! ## Where the parts come from -/

/-- The answer to the n-th call. -/
def answer (ops : List Input) (n : Nat) : Option (Except IoError (Option Datagram)) :=
  ops[n]?.map fun o => ((after (ops.take n)).step o).1

/-- Answers that were given stay given. -/
theorem answer_append {ops : List Input} {n : Nat} (h : n < ops.length) (more : List Input) :
    answer (ops ++ more) n = answer ops n := by
  rw [answer, answer, List.getElem?_append_left h, List.take_append_of_le_length (Nat.le_of_lt h)]

/-- The answer to the last packet. -/
theorem answer_snoc (ops : List Input) (o : Input) :
    answer (ops ++ [o]) ops.length = some ((after ops).step o).1 := by
  simp [answer]

/-- The context of a key is there, and not expired, when the n-th call looks. -/
def Alive (ops : List Input) (key : Key) (n : Nat) : Prop :=
  ∃ o c, ops[n]? = some o ∧ ((after (ops.take n)).expire o.now).contexts.get key = some c

/-- A context that was alive at a moment of the run stays so in every longer run. -/
theorem Alive.append {ops : List Input} {key : Key} {n : Nat} (h : Alive ops key n)
    (more : List Input) : Alive (ops ++ more) key n := by
  obtain ⟨o, c, ho, hc⟩ := h
  have hlt : n < ops.length := (List.getElem?_eq_some_iff.1 ho).1
  refine ⟨o, c, by rw [List.getElem?_append_left hlt]; exact ho, ?_⟩
  rwa [List.take_append_of_le_length (Nat.le_of_lt hlt)]

/-- The n-th call received a fragment under a key and a header, before a moment. -/
structure Received (ops : List Input) (key : Key) (header : Bytes) (limit n : Nat)
    (f : Fragment) : Prop where
  input : ∃ o, ops[n]? = some o ∧ parse o.bytes = .ok (some f) ∧ o.key f = key ∧ o.now < limit
  header : f.header = header

/-- A fragment is received within the run. -/
theorem Received.lt {ops : List Input} {key : Key} {header : Bytes} {limit n : Nat}
    {f : Fragment} (h : Received ops key header limit n f) : n < ops.length := by
  obtain ⟨o, ho, -⟩ := h.input
  exact (List.getElem?_eq_some_iff.1 ho).1

/-- A fragment that was received stays so in every longer run. -/
theorem Received.append {ops : List Input} {key : Key} {header : Bytes} {limit n : Nat}
    {f : Fragment} (h : Received ops key header limit n f) (more : List Input) :
    Received (ops ++ more) key header limit n f := by
  have hlt := h.lt
  obtain ⟨o, ho, hp⟩ := h.input
  exact ⟨⟨o, by rw [List.getElem?_append_left hlt]; exact ho, hp⟩, h.header⟩

/-- The context `c` of a key, which the call `first` created at the moment `t`: its part at each
offset is the payload of the fragment that `origin` names, received since then. The calls before
`settled` that brought a part answered nothing. -/
structure Gathered (ops : List Input) (settled : Nat) (key : Key) (c : Context)
    (origin : Nat → Nat × Fragment) (first t : Nat) : Prop where
  created : ops[first]?.map Input.now = some t
  deadline : c.deadline ≤ t + 60000
  begun : ∃ e ∈ c.parts.entries, (origin e.1).1 = first
  alive : ∀ n, first < n → n < ops.length → Alive ops key n
  parts :
    ∀ e ∈ c.parts.entries, Received ops key c.header (t + 60000) (origin e.1).1 (origin e.1).2 ∧
    ((origin e.1).2.offset, (origin e.1).2.payload) = e ∧ first ≤ (origin e.1).1 ∧
    ((origin e.1).1 < settled → answer ops (origin e.1).1 = some (.ok none))
  last : ∀ s, c.stop = some s → ∃ e ∈ c.parts.entries, (origin e.1).2.more = false ∧
    e.1 + e.2.length = s

section Gathering

variable {ops : List Input} {o : Input} {key : Key} {c : Context} {origin : Nat → Nat × Fragment}
  {first t : Nat} {f : Fragment}

/-- A call that finds the context alive leaves all that was gathered: the history only grows, and
the call is one more at which the context was alive. -/
theorem Gathered.snoc (h : Gathered ops ops.length key c origin first t)
    (hget : ((after ops).expire o.now).contexts.get key = some c) :
    Gathered (ops ++ [o]) ops.length key c origin first t where
  created := by
    obtain ⟨p, hp, ht⟩ := Option.map_eq_some_iff.1 h.created
    rw [List.getElem?_append_left (List.getElem?_eq_some_iff.1 hp).1]
    exact h.created
  deadline := h.deadline
  begun := h.begun
  alive := by
    intro n hlt hle
    by_cases hn : n < ops.length
    · exact (h.alive n hlt hn).append [o]
    · obtain rfl : n = ops.length := by
        rw [List.length_append, List.length_singleton] at hle
        omega
      exact ⟨o, c, by simp, by simpa using hget⟩
  parts := by
    intro e he
    obtain ⟨hrec, heq, hle, hans⟩ := h.parts e he
    exact ⟨hrec.append [o], heq, hle, fun hlt => by rw [answer_append hrec.lt]; exact hans hlt⟩
  last := h.last

/-- A call that adds its fragment to the context, whose offset was free: the parts of before keep
their origin, and the new part comes from this call. -/
theorem Gathered.add (h : Gathered (ops ++ [o]) ops.length key c origin first t)
    (hparse : parse o.bytes = .ok (some f)) (hkey : o.key f = key) (hagree : Agrees c f)
    (hfree : c.parts.get f.offset = none) (hnow : o.now < c.deadline)
    (hfirst : first ≤ ops.length) :
    Gathered (ops ++ [o]) ops.length key (c.add f f.stop)
      (fun n => if n = f.offset then (ops.length, f) else origin n) first t := by
  have hne : ∀ e ∈ c.parts.entries, e.1 ≠ f.offset := by
    intro e he heq
    have := OrdMap.get_of_mem (show (e.1, e.2) ∈ _ from he)
    rw [heq, hfree] at this
    cases this
  have hrec : Received (ops ++ [o]) key c.header (t + 60000) ops.length f :=
    ⟨⟨o, by simp, hparse, hkey, Nat.lt_of_lt_of_le hnow h.deadline⟩, hagree.header.symm⟩
  refine ⟨h.created, h.deadline, ?_, h.alive, fun e he => ?_, fun s hs => ?_⟩
  · obtain ⟨e, he, hf⟩ := h.begun
    refine ⟨e, mem_add_of_mem he (hne e he), ?_⟩
    rw [if_neg (hne e he)]
    exact hf
  · cases mem_add he with
    | inl he =>
      simp only [if_neg he.2]
      exact h.parts e he.1
    | inr he =>
      subst he
      simp only [if_true]
      exact ⟨hrec, trivial, hfirst, fun hlt => absurd hlt (Nat.lt_irrefl _)⟩
  · by_cases hm : f.more = false
    · refine ⟨_, mem_add_self c f, by simp [hm], ?_⟩
      simp only [Context.add, hm, Bool.not_false, if_true] at hs
      cases hs
      rfl
    · have hm : f.more = true := by simpa using hm
      simp only [Context.add, hm, Bool.not_true, Bool.false_eq_true, if_false] at hs
      obtain ⟨e, he, hmore, hend⟩ := h.last s hs
      refine ⟨e, mem_add_of_mem he (hne e he), ?_, hend⟩
      rw [if_neg (hne e he)]
      exact hmore

/-- A call that creates the context of its fragment: the only part comes from this call, which is
both the first one and the one that set the deadline. -/
theorem Gathered.create (hparse : parse o.bytes = .ok (some f))
    (hget : ((after ops).expire o.now).contexts.get (o.key f) = none) :
    Gathered (ops ++ [o]) ops.length (o.key f) (((after ops).expire o.now).filled o f)
      (fun _ => (ops.length, f)) ops.length o.now := by
  have hentries : (((after ops).expire o.now).filled o f).parts.entries =
      [(f.offset, f.payload)] := by
    rw [filled_fresh hget]
    rfl
  refine ⟨by simp, ?_, ?_, ?_, ?_, ?_⟩
  · rw [filled_fresh hget]
    exact satAdd_le _ _
  · exact ⟨_, by rw [hentries]; exact List.mem_singleton_self _, rfl⟩
  · intro n hlt hle
    rw [List.length_append, List.length_singleton] at hle
    omega
  · intro e he
    rw [hentries, List.mem_singleton] at he
    subst he
    refine ⟨⟨⟨o, by simp, hparse, rfl, by omega⟩, ?_⟩, rfl, Nat.le_refl _,
      fun hlt => absurd hlt (Nat.lt_irrefl _)⟩
    rw [filled_fresh hget]
  · intro s hs
    refine ⟨_, by rw [hentries]; exact List.mem_singleton_self _, ?_⟩
    rw [filled_fresh hget] at hs
    by_cases hm : f.more = false
    · simp only [hm, Bool.not_false, if_true] at hs
      cases hs
      exact ⟨hm, rfl⟩
    · have hm : f.more = true := by simpa using hm
      simp only [hm, Bool.not_true, Bool.false_eq_true, if_false] at hs
      cases hs

/-- The call has answered, and the context is still there. Either all its parts come from earlier
calls, or the last call answered that the packet is not complete. -/
theorem Gathered.settle (h : Gathered (ops ++ [o]) ops.length key c origin first t)
    (hans : (∀ e ∈ c.parts.entries, (origin e.1).1 < ops.length) ∨
      ((after ops).step o).1 = .ok none) :
    Gathered (ops ++ [o]) (ops ++ [o]).length key c origin first t where
  created := h.created
  deadline := h.deadline
  begun := h.begun
  alive := h.alive
  parts := by
    intro e he
    obtain ⟨hrec, heq, hle, hsettled⟩ := h.parts e he
    refine ⟨hrec, heq, hle, fun hlt => ?_⟩
    by_cases hn : (origin e.1).1 < ops.length
    · exact hsettled hn
    · cases hans with
      | inl h => exact absurd (h e he) hn
      | inr h =>
        rw [List.length_append, List.length_singleton] at hlt
        rw [show (origin e.1).1 = ops.length by omega, answer_snoc, h]
  last := h.last

end Gathering

/-- Every context of the reassembler is gathered. -/
def AllGathered (ops : List Input) : Prop :=
  ∀ key c, (after ops).contexts.get key = some c →
    ∃ origin first t, Gathered ops ops.length key c origin first t

section Step

variable {ops : List Input} {o : Input} {key : Key} {c : Context} {f : Fragment}

/-- A context that a call does not touch. -/
theorem AllGathered.untouched (h : AllGathered ops)
    (hget : ((after ops).expire o.now).contexts.get key = some c) :
    ∃ origin first t, Gathered (ops ++ [o]) (ops ++ [o]).length key c origin first t := by
  have hold := hget
  simp only [expire, OrdMap.get_retain_values, Option.filter_eq_some_iff] at hold
  obtain ⟨origin, first, t, hg⟩ := h key c hold.1
  exact ⟨origin, first, t, (hg.snoc hget).settle (.inl fun e he => (hg.parts e he).1.lt)⟩

/-- The context of an accepted fragment, before the call answers. It is a new one, or one that was
gathered before and has not expired. -/
theorem AllGathered.filled (h : AllGathered ops)
    (ha : Accepted ((after ops).expire o.now) o f) :
    ∃ origin first t, Gathered (ops ++ [o]) ops.length (o.key f)
      (((after ops).expire o.now).filled o f) origin first t := by
  cases hget : ((after ops).expire o.now).contexts.get (o.key f) with
  | none => exact ⟨_, _, _, Gathered.create ha.parsed hget⟩
  | some c =>
    have hold := hget
    simp only [expire, OrdMap.get_retain_values, Option.filter_eq_some_iff,
      decide_eq_true_eq] at hold
    have hagree := agrees_of_conflicts (ha.agrees c hget)
    have hfree := hagree.get_offset ((bounded_after ops).sound _ c hold.1) ha.shape.payload
    obtain ⟨origin, first, t, hg⟩ := h _ c hold.1
    obtain ⟨p, hp, -⟩ := Option.map_eq_some_iff.1 hg.created
    have hlt := (List.getElem?_eq_some_iff.1 hp).1
    rw [filled_present hget]
    exact ⟨_, _, _, (hg.snoc hget).add ha.parsed rfl hagree hfree hold.2 (Nat.le_of_lt hlt)⟩

/-- Every call keeps the contexts gathered. By the cases of the call: the context that it fills is
gathered with its fragment, and the others are those of before. -/
theorem AllGathered.snoc (h : AllGathered ops) (o : Input) : AllGathered (ops ++ [o]) := by
  intro key c hget
  rw [after_snoc] at hget
  have hh := handled_step (after ops) o
  generalize hout : ((after ops).step o).1 = out at hh
  generalize ((after ops).step o).2 = r' at hh hget
  cases hh with
  | malformed | whole | atomic => exact h.untouched hget
  | discarded f =>
    rw [OrdMap.get_remove] at hget
    split at hget
    · cases hget
    · exact h.untouched hget
  | kept f ha =>
    rw [OrdMap.get_insert_eq] at hget
    split at hget
    · next heq =>
      cases hget
      subst heq
      obtain ⟨origin, first, t, hg⟩ := h.filled ha
      exact ⟨origin, first, t, hg.settle (.inr hout)⟩
    · exact h.untouched hget
  | completed f ha =>
    rw [OrdMap.get_remove, OrdMap.get_insert_eq] at hget
    split at hget
    · cases hget
    · next hne =>
      rw [if_neg fun h => hne (sameKey_iff.2 h.symm)] at hget
      exact h.untouched hget

/-- In every run, what the contexts hold was received while they were alive. -/
theorem allGathered (ops : List Input) : AllGathered ops := by
  induction ops using List.reverseRecOn with
  | nil =>
    intro key c hget
    simp [after, default] at hget
  | append_singleton ops o ih => exact ih.snoc o

end Step

/-! ## Deliveries -/

/-- Fragments that follow one another, without gap or overlap, from `pos` on. -/
def Consecutive : List Fragment → Nat → Prop
  | [], _ => True
  | f :: fs, pos => f.offset = pos ∧ Consecutive fs (pos + f.payload.length)

/-- The datagram that the n-th call delivered is made of the fragments `sources`, each beside the
call that received it: all under one key and one header, the first of them at the moment `t` by the
call `first`, since when the context was never discarded. -/
structure Delivery (ops : List Input) (n : Nat) (sources : List (Nat × Fragment)) (d : Datagram)
    (key : Key) (header : Bytes) (first t : Nat) : Prop where
  packet : complete header (sources.map fun p => p.2.payload).flatten = .ok d.packet
  id : d.fragmentId = some key.2.2.2.2
  consecutive : Consecutive (sources.map Prod.snd) 0
  last : ∃ p, sources.getLast? = some p ∧ p.2.more = false
  received : ∀ p ∈ sources, Received ops key header (t + 60000) p.1 p.2 ∧ first ≤ p.1 ∧ p.1 ≤ n
  created : ops[first]?.map Input.now = some t
  begun : ∃ p ∈ sources, p.1 = first
  alive : ∀ m, first < m → m ≤ n → Alive ops key m
  silent : ∀ p ∈ sources, p.1 < n → answer ops p.1 = some (.ok none)
  gone : ∀ p ∈ sources, p.1 < n → (after (ops.take (n + 1))).contexts.get key = none

section Deliveries

variable {ops : List Input} {o : Input} {n : Nat} {d : Datagram}

/-- The part that ends where the run does is the last one. By induction on the parts: a part with
another one behind it ends before the run does. -/
theorem getLast?_of_runLength {parts : List (Nat × Bytes)} {pos next : Nat} {e : Nat × Bytes}
    (h : runLength parts pos = some next) (hne : ∀ e ∈ parts, e.2 ≠ []) (he : e ∈ parts)
    (hend : e.1 + e.2.length = next) : parts.getLast? = some e := by
  induction parts generalizing pos with
  | nil => cases he
  | cons a parts ih =>
    obtain ⟨at', b⟩ := a
    unfold runLength at h
    split at h
    · cases h
    · cases parts with
      | nil =>
        rw [List.mem_singleton] at he
        rw [he]
        rfl
      | cons a' parts =>
        rw [List.getLast?_cons_cons]
        refine ih h (fun e he => hne e (List.mem_cons_of_mem _ he)) ?_
        cases List.mem_cons.1 he with
        | inr he => exact he
        | inl he =>
          exfalso
          obtain ⟨hlen, -⟩ := runLength_eq_some h
          have hpos : 0 < a'.2.length :=
            List.length_pos_iff.2 (hne a' (List.mem_cons_of_mem _ List.mem_cons_self))
          subst he
          simp only [List.map_cons, List.flatten_cons, List.length_append] at hlen hend
          omega

/-- Parts that follow one another without gaps make fragments that do. By induction on the
fragments, with the end of each as the start of the next. -/
theorem consecutive_of_runLength {parts : List (Nat × Bytes)} {pos next : Nat} {fs : List Fragment}
    (h : runLength parts pos = some next)
    (hfs : fs.map (fun f => (f.offset, f.payload)) = parts) : Consecutive fs pos := by
  induction fs generalizing parts pos with
  | nil => trivial
  | cons f fs ih =>
    subst hfs
    rw [List.map_cons, runLength] at h
    split at h
    · cases h
    · next hpos =>
      refine ⟨not_not.1 hpos, ?_⟩
      have hpos := not_not.1 hpos
      exact ih h rfl

/-- A full context, at the call that filled it, gives a delivery. Its parts run without a gap to the
end that the last fragment has named (`Full`), and each is the payload of the fragment that it came
from. -/
theorem Gathered.delivery {key : Key} {c : Context} {origin : Nat → Nat × Fragment}
    {first t : Nat} (h : Gathered (ops ++ [o]) ops.length key c origin first t) (hsound : Sound c)
    (hfull : Full c) (hpacket : complete c.header c.parts.values.flatten = .ok d.packet)
    (hid : d.fragmentId = some key.2.2.2.2)
    (hgone : (after (ops ++ [o])).contexts.get key = none) :
    Delivery (ops ++ [o]) ops.length (c.parts.entries.map fun e => origin e.1) d key c.header first
      t := by
  obtain ⟨next, hrun, hstop⟩ := hfull
  have hparts : (c.parts.entries.map fun e => origin e.1).map
      (fun p => (p.2.offset, p.2.payload)) = c.parts.entries := by
    rw [List.map_map]
    exact (List.map_congr_left fun e he => (h.parts e he).2.1).trans (List.map_id _)
  have hpayload : ((c.parts.entries.map fun e => origin e.1).map fun p => p.2.payload) =
      c.parts.values := by
    have := congrArg (List.map Prod.snd) hparts
    rwa [List.map_map] at this
  have hmem : ∀ p ∈ c.parts.entries.map fun e => origin e.1,
      ∃ e ∈ c.parts.entries, origin e.1 = p := fun p hp => List.mem_map.1 hp
  refine ⟨by rw [hpayload]; exact hpacket, hid, ?_, ?_, ?_, h.created, ?_, ?_, ?_, ?_⟩
  · exact consecutive_of_runLength hrun (by rw [List.map_map]; exact hparts)
  · obtain ⟨e, he, hmore, hend⟩ := h.last next hstop
    refine ⟨origin e.1, ?_, hmore⟩
    rw [List.getLast?_map, getLast?_of_runLength hrun hsound.nonempty he hend]
    rfl
  · intro p hp
    obtain ⟨e, he, rfl⟩ := hmem p hp
    obtain ⟨hrec, -, hle, -⟩ := h.parts e he
    have := hrec.lt
    rw [List.length_append, List.length_singleton] at this
    exact ⟨hrec, hle, by omega⟩
  · obtain ⟨e, he, hf⟩ := h.begun
    exact ⟨_, List.mem_map_of_mem he, hf⟩
  · intro m hlt hle
    exact h.alive m hlt (by rw [List.length_append, List.length_singleton]; omega)
  · intro p hp hlt
    obtain ⟨e, he, rfl⟩ := hmem p hp
    exact (h.parts e he).2.2.2 hlt
  · intro _ _ _
    rw [List.take_of_length_le (by simp)]
    exact hgone

/-- A fragment that is a whole packet. It is its only source, and the context begins and ends with
the call. -/
theorem delivery_atomic {f : Fragment} (hparse : parse o.bytes = .ok (some f)) (h0 : f.offset = 0)
    (hm : f.more = false) (hpacket : complete f.header f.payload = .ok d.packet)
    (hid : d.fragmentId = some (o.key f).2.2.2.2) :
    Delivery (ops ++ [o]) ops.length [(ops.length, f)] d (o.key f) f.header ops.length o.now := by
  have hlast : ∀ p ∈ [(ops.length, f)], p = (ops.length, f) := fun p hp => List.mem_singleton.1 hp
  refine ⟨by simpa using hpacket, hid, ⟨h0, trivial⟩, ⟨_, rfl, hm⟩, fun p hp => ?_, by simp,
    ⟨_, List.mem_singleton_self _, rfl⟩, fun m hlt hle => by omega, fun p hp hlt => ?_,
    fun p hp hlt => ?_⟩
  · rw [hlast p hp]
    exact ⟨⟨⟨o, by simp, hparse, rfl, by omega⟩, rfl⟩, Nat.le_refl _, Nat.le_refl _⟩
  · rw [hlast p hp] at hlt
    exact absurd hlt (Nat.lt_irrefl _)
  · rw [hlast p hp] at hlt
    exact absurd hlt (Nat.lt_irrefl _)

/-- A datagram that is delivered was completed, and has the identifier of its fragments. -/
theorem map_eq_ok {header data : Bytes} {id : UInt32}
    (h : ((complete header data).map fun packet => some (⟨packet, some id⟩ : Datagram)) =
      .ok (some d)) : complete header data = .ok d.packet ∧ d.fragmentId = some id := by
  cases hc : complete header data with
  | error e =>
    rw [hc] at h
    cases h
  | ok packet =>
    rw [hc] at h
    cases h
    exact ⟨rfl, rfl⟩

/-- The last call of a sequence delivers what its fragments make: a fragment that is a whole packet,
or the context that this call has filled. -/
theorem delivery_snoc (h : ((after ops).step o).1 = .ok (some d)) (hid : d.fragmentId ≠ none) :
    ∃ sources key header first t,
      Delivery (ops ++ [o]) ops.length sources d key header first t := by
  have hh := handled_step (after ops) o
  have hafter := after_snoc ops o
  generalize ((after ops).step o).2 = r' at hh hafter
  rw [h] at hh
  generalize hout : (Except.ok (some d) : Except IoError (Option Datagram)) = out at hh
  cases hh with
  | malformed | discarded | kept => cases hout
  | whole =>
    cases hout
    exact absurd rfl hid
  | atomic f hparse h0 hm =>
    obtain ⟨hpacket, hid⟩ := map_eq_ok hout.symm
    exact ⟨_, _, _, _, _, delivery_atomic hparse h0 hm hpacket hid⟩
  | completed f ha hfull =>
    obtain ⟨hpacket, hid⟩ := map_eq_ok hout.symm
    obtain ⟨origin, first, t, hg⟩ := (allGathered ops).filled ha
    have hsound := ha.sound_filled ((bounded_after ops).retain _).sound
    refine ⟨_, _, _, _, _, hg.delivery hsound hfull hpacket hid ?_⟩
    rw [hafter]
    exact OrdMap.get_remove_self _ _

/-- The packets up to a moment are the same in every longer run. -/
theorem take_succ_append {ops : List Input} (h : n < ops.length) (more : List Input) :
    (ops ++ more).take (n + 1) = ops.take (n + 1) := List.take_append_of_le_length h

/-- Later calls do not change what a delivery is made of. Each of its conditions speaks of calls
with numbers that the run has already reached. -/
theorem Delivery.append {sources : List (Nat × Fragment)} {key : Key} {header : Bytes}
    {first t : Nat} (h : Delivery ops n sources d key header first t) (hn : n < ops.length)
    (more : List Input) : Delivery (ops ++ more) n sources d key header first t where
  packet := h.packet
  id := h.id
  consecutive := h.consecutive
  last := h.last
  received := fun p hp => ⟨(h.received p hp).1.append more, (h.received p hp).2⟩
  created := by
    obtain ⟨p, hp, -⟩ := Option.map_eq_some_iff.1 h.created
    rw [List.getElem?_append_left (List.getElem?_eq_some_iff.1 hp).1]
    exact h.created
  begun := h.begun
  alive := fun m hlt hle => (h.alive m hlt hle).append more
  silent := fun p hp hlt => by
    rw [answer_append (Nat.lt_trans hlt hn)]
    exact h.silent p hp hlt
  gone := fun p hp hlt => by
    rw [take_succ_append hn]
    exact h.gone p hp hlt

/-- Every datagram that was put together has its fragments. The history is split at the call that
has returned it, and what comes later changes nothing (`Delivery.append`). -/
theorem exists_delivery (h : answer ops n = some (.ok (some d))) (hid : d.fragmentId ≠ none) :
    ∃ sources key header first t, Delivery ops n sources d key header first t := by
  obtain ⟨o, ho, hans⟩ := Option.map_eq_some_iff.1 h
  obtain ⟨hlt, ho⟩ := List.getElem?_eq_some_iff.1 ho
  have hsplit : ops = ops.take n ++ [o] ++ ops.drop (n + 1) := by
    rw [← ho, List.take_append_getElem, List.take_append_drop]
  have hlen : (ops.take n).length = n := by rw [List.length_take]; omega
  obtain ⟨sources, key, header, first, t, hd⟩ := delivery_snoc hans hid
  rw [hlen] at hd
  refine ⟨sources, key, header, first, t, ?_⟩
  rw [hsplit]
  exact hd.append (by rw [List.length_append, hlen, List.length_singleton]; omega) _

/-- No fragment contributes to two datagrams. A context is gone after its delivery, so that the life
of the second one begins later than each fragment of the first. -/
theorem Delivery.disjoint {m : Nat} {sources sources' : List (Nat × Fragment)} {d' : Datagram}
    {key key' : Key} {header header' : Bytes} {first first' t t' : Nat}
    (h : Delivery ops n sources d key header first t)
    (h' : Delivery ops m sources' d' key' header' first' t')
    (hans : answer ops n = some (.ok (some d))) (hlt : n < m) :
    ∀ p ∈ sources, ∀ q ∈ sources', p.1 ≠ q.1 := by
  intro p hp q hq heq
  obtain ⟨hrec, -, hle⟩ := h.received p hp
  obtain ⟨hrec', hfirst', -⟩ := h'.received q hq
  have hsilent := h'.silent q hq (by omega)
  by_cases hn : p.1 = n
  · rw [← heq, hn, hans] at hsilent
    cases hsilent
  · have hgone := h.gone p hp (by omega)
    obtain ⟨o', c, ho', halive⟩ := h'.alive (n + 1) (by omega) (by omega)
    have hkey : key' = key := by
      obtain ⟨a, ha, hpa, hka, -⟩ := hrec.input
      obtain ⟨b, hb, hpb, hkb, -⟩ := hrec'.input
      rw [← heq, ha] at hb
      cases hb
      rw [hpa] at hpb
      have hpq : p.2 = q.2 := Option.some.inj (Except.ok.inj hpb)
      rw [← hka, ← hkb, hpq]
    simp only [expire, OrdMap.get_retain_values, Option.filter_eq_some_iff] at halive
    rw [hkey, hgone] at halive
    cases halive.1

end Deliveries

/-! ## Integrity -/

/-- A fragment that fills its context. -/
theorem Accepted.complete_filled {r : Reassembler} {o : Input} {f : Fragment} (h : Accepted r o f)
    (hr : Bounded r) (hfull : Full (r.filled o f)) :
    ∃ packet, complete (r.filled o f).header (r.filled o f).parts.values.flatten = .ok packet :=
  (h.sound_filled hr.sound).complete hfull

/-- A call that finds no room changes nothing but what expired. By the cases of `Handled`: the
errors that change more are of another kind, and completing a packet never fails. -/
theorem handled_wouldBlock {r r' : Reassembler} {o : Input} {e : IoError} (hr : Bounded r)
    (h : Handled r o (.error e) r') (he : e.kind = .wouldBlock) : r' = r := by
  generalize hout : (Except.error e : Except IoError (Option Datagram)) = out at h
  cases h with
  | malformed | atomic => rfl
  | whole | kept => cases hout
  | discarded =>
    cases hout
    cases he
  | completed f ha hfull =>
    obtain ⟨packet, hpacket⟩ := ha.complete_filled hr hfull
    rw [hpacket] at hout
    cases hout

/-- Reassembly integrity, for every sequence of packets: a datagram that was put together is made of
consecutive fragments of one life of their context, no fragment is used twice, and the contexts stay
few, small and completable. -/
theorem reassembly_integrity (ops : List Input) :
    (∃ sources : Nat → List (Nat × Fragment),
      (∀ n d, answer ops n = some (.ok (some d)) → d.fragmentId ≠ none →
        ∃ key header first t, Delivery ops n (sources n) d key header first t) ∧
      ∀ n m d d', answer ops n = some (.ok (some d)) → d.fragmentId ≠ none →
        answer ops m = some (.ok (some d')) → d'.fragmentId ≠ none → n ≠ m →
        ∀ p ∈ sources n, ∀ q ∈ sources m, p.1 ≠ q.1) ∧
      (after ops).contexts.size ≤ 64 ∧ (after ops).retainedBytes ≤ cap ∧
      (∀ key c, (after ops).contexts.get key = some c →
        ∀ e ∈ c.parts.entries, e.1 + e.2.length + overhead c.header ≤ 65535) ∧
      (∀ o f, Accepted ((after ops).expire o.now) o f →
       Full (((after ops).expire o.now).filled o f) →
        ∃ packet, complete (((after ops).expire o.now).filled o f).header
          (((after ops).expire o.now).filled o f).parts.values.flatten = .ok packet) ∧
      ∀ o e, ((after ops).step o).1 = .error e → e.kind = .wouldBlock →
        ((after ops).step o).2 = (after ops).expire o.now := by
  have hbound := bounded_after ops
  have hsource : ∀ n, ∃ sources : List (Nat × Fragment), ∀ d,
      answer ops n = some (.ok (some d)) → d.fragmentId ≠ none →
        ∃ key header first t, Delivery ops n sources d key header first t := by
    intro n
    by_cases h : ∃ d, answer ops n = some (.ok (some d)) ∧ d.fragmentId ≠ none
    · obtain ⟨d, hans, hid⟩ := h
      obtain ⟨sources, hd⟩ := exists_delivery hans hid
      refine ⟨sources, fun d' hans' _ => ?_⟩
      rw [hans] at hans'
      cases hans'
      exact hd
    · exact ⟨[], fun d hans hid => absurd ⟨d, hans, hid⟩ h⟩
  choose sources hsources using hsource
  refine ⟨⟨sources, hsources, fun n m d d' hn hid hm hid' hne => ?_⟩, hbound.count, hbound.retained,
    fun key c hget => (hbound.sound key c hget).fits,
    fun o f ha hfull => ha.complete_filled (hbound.retain _) hfull, fun o e herr he => ?_⟩
  · obtain ⟨key, header, first, t, hd⟩ := hsources n d hn hid
    obtain ⟨key', header', first', t', hd'⟩ := hsources m d' hm hid'
    cases Nat.lt_or_gt_of_ne hne with
    | inl hlt => exact hd.disjoint hd' hn hlt
    | inr hgt => exact fun p hp q hq heq => hd'.disjoint hd hm hgt q hq p hp heq.symm
  · have hh := handled_step (after ops) o
    rw [herr] at hh
    exact handled_wouldBlock (hbound.retain _) hh he

end Reassembler

end SnacMachine.Ip
