import SnacMachine.Dns.Wire
import SnacMachine.Lib.Parse

/-!
# Names on the wire

`Reach b known pos ls hops positions stop` says what a name at an offset is: its labels, through the
pointers of the message, how many pointers these are, which offsets it goes through and where it
ends for the reader of the message. The reader returns such a name (`nameLoop_reach`), and it fails
only for want of budget or behind more than 64 pointers (`nameLoop_succeeds`).

Both writers write names that can be reached, the compressing one because every dictionary entry is
the known offset of its suffix (`EntryAt`). `Track` follows a reader through a message that is a
list of pieces, names and other octets; `shallow` says of the pieces alone that no name of theirs
comes to lie behind more than 64 pointers.
-/

namespace SnacMachine.Dns

/-- A name at an offset: its labels, the number of pointers it goes through, the offsets it goes
through, and the offset after it. A pointer goes back, to an offset in `known`. -/
inductive Reach (b : Bytes) (known : List Nat) :
    (pos : Nat) → List Bytes → (hops : Nat) → (positions : List Nat) → (stop : Nat) → Prop
  | root {pos : Nat} (h : Span b pos (pos + 1) [0]) : Reach b known pos [] 0 [pos] (pos + 1)
  | label {pos stop hops : Nat} {l : Bytes} {ls : List Bytes} {positions : List Nat}
      (hl : l ≠ [] ∧ l.length ≤ 63)
      (h : Span b pos (pos + 1 + l.length) (UInt8.ofNat l.length :: l))
      (rest : Reach b known (pos + 1 + l.length) ls hops positions stop) :
      Reach b known pos (l :: ls) hops (pos :: positions) stop
  | pointer {pos target stop hops : Nat} {ls : List Bytes} {positions : List Nat}
      (ht : target < 16384) (hlt : target < pos) (hk : target ∈ known)
      (h : Span b pos (pos + 2) (toBe 2 (49152 + target)))
      (rest : Reach b known target ls hops positions stop) :
      Reach b known pos ls (hops + 1) (pos :: positions) (pos + 2)

/-- A name that can be reached stays so when more positions are known. -/
theorem Reach.mono {b : Bytes} {known known' : List Nat} {pos hops stop : Nat} {ls : List Bytes}
    {positions : List Nat} (h : Reach b known pos ls hops positions stop)
    (hk : ∀ k ∈ known, k ∈ known') : Reach b known' pos ls hops positions stop := by
  induction h with
  | root h => exact .root h
  | label hl h _ ih => exact .label hl h ih
  | pointer ht hlt hm h _ ih => exact .pointer ht hlt (hk _ hm) h ih

/-- Every label, every pointer and the root is at a position of its own. -/
theorem Reach.length_positions {b : Bytes} {known : List Nat} {pos hops stop : Nat}
    {ls : List Bytes} {positions : List Nat} (h : Reach b known pos ls hops positions stop) :
    positions.length = ls.length + hops + 1 := by
  induction h with
  | root h => rfl
  | label _ _ _ ih =>
    simp only [List.length_cons, ih]
    omega
  | pointer _ _ _ _ _ ih =>
    simp only [List.length_cons, ih]
    omega

/-- A name takes at least one octet where it is written. -/
theorem Reach.lt_stop {b : Bytes} {known : List Nat} {pos hops stop : Nat} {ls : List Bytes}
    {positions : List Nat} (h : Reach b known pos ls hops positions stop) : pos < stop := by
  induction h with
  | root h => exact Nat.lt_succ_self _
  | label _ _ _ ih => omega
  | pointer _ _ _ _ _ ih => omega

/-- A name ends within the buffer. -/
theorem Reach.stop_le {b : Bytes} {known : List Nat} {pos hops stop : Nat} {ls : List Bytes}
    {positions : List Nat} (h : Reach b known pos ls hops positions stop) : stop ≤ b.length := by
  induction h with
  | root h => exact h.stop_le
  | label _ _ _ ih => exact ih
  | pointer _ _ _ h _ _ => exact h.stop_le

/-! ## Reads at an offset -/

/-- Where octets are taken, so many are there. -/
theorem take_eq_some {b : Bytes} {pos stop n : Nat} {x : Bytes} {pos' : Nat}
    (h : take b pos stop n = some (x, pos')) :
    x = (b.drop pos).take n ∧ x.length = n ∧ pos' = pos + n ∧ pos' ≤ stop ∧ pos' ≤ b.length := by
  unfold take at h
  split at h
  · next hc =>
    simp only [Option.some.injEq, Prod.mk.injEq] at h
    obtain ⟨rfl, rfl⟩ := h
    refine ⟨rfl, ?_, rfl, hc.1, hc.2⟩
    rw [List.length_take, List.length_drop]
    omega
  · exact absurd h (by simp)

/-- The front of a span is taken, and the rest is left. -/
theorem take_span {b x y : Bytes} {pos stop : Nat} (h : Span b pos stop (x ++ y)) :
    take b pos stop x.length = some (x, pos + x.length) := by
  have hs := h.stop_eq
  have hb := h.stop_le
  rw [List.length_append] at hs
  unfold take
  rw [if_pos ⟨by omega, by omega⟩, h.left.octets]

/-- A read within a span that ends before the limit. -/
theorem take_span_le {b x : Bytes} {pos stop limit : Nat} (h : Span b pos stop x)
    (hle : stop ≤ limit) : take b pos limit x.length = some (x, stop) := by
  have hs := h.stop_eq
  have hb := h.stop_le
  unfold take
  rw [if_pos ⟨by omega, by omega⟩, h.octets, hs]

/-- Where an octet is taken, one is there. -/
theorem takeByte_eq_some {b : Bytes} {pos stop : Nat} {c : UInt8} {pos' : Nat}
    (h : takeByte b pos stop = some (c, pos')) : b[pos]? = some c ∧ pos' = pos + 1 := by
  unfold takeByte at h
  obtain ⟨⟨x, p⟩, hx, he⟩ := Option.map_eq_some_iff.1 h
  obtain ⟨rfl, hl, rfl, -, hb⟩ := take_eq_some hx
  simp only [Prod.mk.injEq] at he
  refine ⟨?_, he.2.symm⟩
  rw [← he.1, List.getElem?_eq_getElem (by omega), List.headD_eq_head?_getD, List.head?_take,
    if_neg (by omega), List.head?_drop, List.getElem?_eq_getElem (by omega)]
  rfl

/-- An octet before the limit. -/
theorem takeByte_span_le {b : Bytes} {c : UInt8} {pos stop limit : Nat} (h : Span b pos stop [c])
    (hle : stop ≤ limit) : takeByte b pos limit = some (c, stop) := by
  unfold takeByte
  have : take b pos limit 1 = _ := take_span_le h hle
  rw [this]
  rfl

/-- The first octet of a span is taken. -/
theorem takeByte_span {b x : Bytes} {c : UInt8} {pos stop : Nat} (h : Span b pos stop (c :: x)) :
    takeByte b pos stop = some (c, pos + 1) := by
  unfold takeByte
  have : take b pos stop 1 = _ := take_span (x := [c]) h
  rw [this]
  rfl

/-- A number of 16 bits is read back where it was written. -/
theorem u16_span {b x : Bytes} {v : UInt16} {pos stop : Nat}
    (h : Span b pos stop (toBe 2 v.toNat ++ x)) : u16 b pos stop = some (v, pos + 2) := by
  unfold u16
  have := take_span h
  rw [length_toBe] at this
  rw [this]
  simp

/-- A number of 32 bits is read back where it was written. -/
theorem u32_span {b x : Bytes} {v : UInt32} {pos stop : Nat}
    (h : Span b pos stop (toBe 4 v.toNat ++ x)) : u32 b pos stop = some (v, pos + 4) := by
  unfold u32
  have := take_span h
  rw [length_toBe] at this
  rw [this]
  simp

/-! ## The name reader -/

/-- What one step of the name loop saw and returned: the end of the name, a label with the rest
behind it, or a pointer with the rest at its target. The other octets fail, and so does a step
beyond a limit. -/
theorem nameLoop_cases {b : Bytes} {z : Bool} {known : List Nat}
    {budget pos limit length hops : Nat} {r : NameRun}
    (h : nameLoop b z known (budget + 1) pos limit length hops = some r) :
    ∃ c : UInt8, b[pos]? = some c ∧
      ((c = 0 ∧ r.labels = [] ∧ r.positions = [pos] ∧ r.pos = pos + 1) ∨
      (c ≠ 0 ∧ c ≤ 63 ∧ ∃ r', nameLoop b z known budget (pos + 1 + c.toNat) limit
          (length + 1 + c.toNat) hops = some r' ∧
        r.labels = (b.drop (pos + 1)).take c.toNat :: r'.labels ∧
        r.positions = pos :: r'.positions ∧ r.pos = r'.pos) ∨
      (192 ≤ c ∧ hops + 1 ≤ 64 ∧ ∃ low : UInt8, b[pos + 1]? = some low ∧ ∃ r',
        nameLoop b z known budget ((c.toNat - 192) * 256 + low.toNat) b.length length (hops + 1) =
          some r' ∧ r.labels = r'.labels ∧ r.positions = pos :: r'.positions ∧
            r.pos = pos + 2)) := by
  simp only [nameLoop, Option.bind_eq_bind, Option.bind_eq_some_iff] at h
  obtain ⟨⟨c, next⟩, hc, h⟩ := h
  obtain ⟨hb, rfl⟩ := takeByte_eq_some hc
  refine ⟨c, hb, ?_⟩
  split at h
  · next h0 =>
    obtain rfl := Option.some.inj h
    exact .inl ⟨h0, rfl, rfl, rfl⟩
  · next h0 =>
    split at h
    · next h63 =>
      obtain ⟨⟨l, next⟩, hl, h⟩ := Option.bind_eq_some_iff.1 h
      obtain ⟨rfl, hlen, rfl, -, -⟩ := take_eq_some hl
      simp only [hlen] at h
      split at h
      · exact absurd h (by simp)
      · obtain ⟨r', hr, h⟩ := Option.bind_eq_some_iff.1 h
        obtain rfl := Option.some.inj h
        exact .inr (.inl ⟨h0, h63, r', hr, rfl, rfl, rfl⟩)
    · split at h
      · next h192 =>
        obtain ⟨⟨low, next⟩, hl, h⟩ := Option.bind_eq_some_iff.1 h
        obtain ⟨hlow, rfl⟩ := takeByte_eq_some hl
        simp only at h
        split at h
        · exact absurd h (by simp)
        · next hbad =>
          obtain ⟨r', hr, h⟩ := Option.bind_eq_some_iff.1 h
          obtain rfl := Option.some.inj h
          exact .inr (.inr ⟨h192.1, by omega, low, hlow, r', hr, rfl, rfl, rfl⟩)
      · exact absurd h (by simp)

/-- A pointer's two octets. -/
theorem toBe_pointer {target : Nat} (h : target < 16384) :
    ∃ hi low : UInt8, toBe 2 (49152 + target) = [hi, low] ∧ 192 ≤ hi ∧
      (hi.toNat - 192) * 256 + low.toNat = target := by
  refine ⟨UInt8.ofNat ((49152 + target) / 256),
    UInt8.ofNat (49152 + target), by simp [toBe], ?_, ?_⟩
  · rw [UInt8.le_iff_toNat_le, UInt8.toNat_ofNat']
    simp; omega
  · rw [UInt8.toNat_ofNat', UInt8.toNat_ofNat']
    omega

/-- A label's length octet is neither the end of a name nor a pointer. It lies between 1 and 63,
while a pointer starts at 192. -/
theorem label_octet {l : Bytes} (hl : l ≠ [] ∧ l.length ≤ 63) :
    (UInt8.ofNat l.length).toNat = l.length ∧ UInt8.ofNat l.length ≠ 0 ∧ UInt8.ofNat l.length ≤ 63 ∧
      ¬ 192 ≤ UInt8.ofNat l.length := by
  have hpos : 0 < l.length := List.length_pos_of_ne_nil hl.1
  have hn : (UInt8.ofNat l.length).toNat = l.length := by
    rw [UInt8.toNat_ofNat']
    omega
  refine ⟨hn, fun h => ?_, ?_, ?_⟩
  · rw [h] at hn
    simp at hn
    omega
  · rw [UInt8.le_iff_toNat_le, hn]
    simp; omega
  · rw [UInt8.le_iff_toNat_le, hn]
    simp; omega

/-- What a successful run of the name loop returns: the labels that are reached from where it
started. By recursion on the budget, with `nameLoop_cases` for the step; the octet at the position
decides which case of `Reach` it is. -/
theorem nameLoop_reach {b : Bytes} {z : Bool} {known : List Nat} :
    ∀ {budget pos limit length hops₀ hops stop : Nat} {r : NameRun} {ls : List Bytes}
      {positions : List Nat},
    nameLoop b z known budget pos limit length hops₀ = some r →
    Reach b known pos ls hops positions stop → hops₀ ≤ 64 →
    r.labels = ls ∧ r.positions = positions ∧ r.pos = stop ∧ hops₀ + hops ≤ 64
  | 0, _, _, _, _, _, _, _, _, _, h, _, _ => by simp [nameLoop] at h
  | budget + 1, pos, limit, length, hops₀, hops, stop, r, ls, positions, h, hn, hle => by
    obtain ⟨c, hc, h⟩ := nameLoop_cases h
    cases hn with
    | root hs =>
      obtain rfl : c = 0 := by simpa [hc] using hs.getElem?
      rcases h with ⟨-, hl, hp, hstop⟩ | ⟨h0, -⟩ | ⟨h192, -⟩
      · exact ⟨hl, hp, hstop, hle⟩
      · exact absurd rfl h0
      · exact absurd h192 (by decide)
    | @label _ _ _ l ls positions hl hs rest =>
      obtain rfl : c = UInt8.ofNat l.length := by simpa [hc] using hs.getElem?
      obtain ⟨hn, hne, -, hlt⟩ := label_octet hl
      rcases h with ⟨h0, -⟩ | ⟨-, -, r', hr, hlab, hpos, hstop⟩ | ⟨h192, -⟩
      · exact absurd h0 hne
      · rw [hn] at hr hlab
        obtain ⟨rfl, rfl, rfl, hhops⟩ := nameLoop_reach hr rest hle
        have ho : ((b.drop (pos + 1)).take l.length) = l :=
          (Span.right (x := [UInt8.ofNat l.length]) (y := l) hs).octets
        exact ⟨by rw [hlab, ho], hpos, hstop, hhops⟩
      · exact absurd h192 hlt
    | @pointer _ target _ _ _ _ ht hlt hk hs rest =>
      obtain ⟨hi, low, he, hge, htarget⟩ := toBe_pointer ht
      rw [he] at hs
      obtain rfl : c = hi := by simpa [hc] using hs.getElem?
      have hlow : b[pos + 1]? = some low := (Span.right (x := [c]) (y := [low]) hs).getElem?
      rcases h with ⟨h0, -⟩ | ⟨-, h63, -⟩ | ⟨-, hmore, low', hl', r', hr, hlab, hpos, hstop⟩
      · subst h0
        exact absurd hge (by decide)
      · exact absurd (UInt8.le_trans hge h63) (by decide)
      · obtain rfl : low' = low := by simpa [hlow] using hl'.symm
        rw [htarget] at hr
        obtain ⟨rfl, rfl, -, hhops⟩ := nameLoop_reach hr rest hmore
        exact ⟨hlab, hpos, hstop, by omega⟩

/-- The name loop reads a name that it has the budget for, through at most 64 pointers. By induction
on `Reach`; the budget left is what the positions visited have not used, so that reading on after
the name can be accounted for. -/
theorem nameLoop_succeeds {b : Bytes} {z : Bool} {known : List Nat} {pos hops stop : Nat}
    {ls : List Bytes} {positions : List Nat} (h : Reach b known pos ls hops positions stop)
    (hz : hops = 0 ∨ z = true) : ∀ (budget : Nat) {limit : Nat} (length hops₀ : Nat), stop ≤ limit →
    positions.length ≤ budget → length + (ls.map fun l => l.length + 1).sum ≤ 255 →
    hops₀ + hops ≤ 64 →
    nameLoop b z known budget pos limit length hops₀ =
      some ⟨ls, positions, stop, budget - positions.length⟩ := by
  induction h with
  | @root pos hs =>
    intro budget limit length hops₀ hstop hbudget _ _
    obtain ⟨budget, rfl⟩ := Nat.exists_eq_add_of_le' hbudget
    have hbyte := takeByte_span_le hs hstop
    show nameLoop b z known (budget + 1) pos limit length hops₀ = _
    simp only [nameLoop, hbyte, Option.bind_eq_bind, Option.bind_some, if_true,
      List.length_singleton, Nat.add_sub_cancel]
  | @label pos stop hops l ls positions hl hs rest ih =>
    intro budget limit length hops₀ hstop hbudget hlen hhops
    obtain ⟨budget, rfl⟩ := Nat.exists_eq_add_of_le' (Nat.le_trans (Nat.le_add_left 1 _) hbudget)
    obtain ⟨hn, hne, h63, -⟩ := label_octet hl
    simp only [List.map_cons, List.sum_cons, List.length_cons] at hlen hbudget
    have hlt := rest.lt_stop
    have hbyte : takeByte b pos limit = some (UInt8.ofNat l.length, pos + 1) :=
      takeByte_span_le (Span.left (x := [UInt8.ofNat l.length]) (y := l) hs)
        (by omega)
    have htake : take b (pos + 1) limit l.length = some (l, pos + 1 + l.length) :=
      take_span_le hs.right_byte (by omega)
    have := ih hz budget (length + 1 + l.length) hops₀ hstop (by omega) (by omega) hhops
    simp only [nameLoop, hbyte, Option.bind_eq_bind, Option.bind_some, hne, if_false,
      h63, if_true, hn, htake]
    rw [if_neg (by omega), this]
    simp only [Option.bind_some, List.length_cons, Nat.add_sub_add_right]
  | @pointer pos target stop hops ls positions ht hlt hk hs rest ih =>
    intro budget limit length hops₀ hstop hbudget hlen hhops
    obtain ⟨budget, rfl⟩ := Nat.exists_eq_add_of_le' (Nat.le_trans (Nat.le_add_left 1 _) hbudget)
    simp only [List.length_cons] at hbudget
    obtain ⟨hi, low, he, hge, htarget⟩ := toBe_pointer ht
    have hz : z = true := hz.resolve_left (by omega)
    rw [he] at hs
    have hbyte : takeByte b pos limit = some (hi, pos + 1) :=
      takeByte_span_le (Span.left (x := [hi]) (y := [low]) hs)
        (by omega)
    have hlow := takeByte_span_le hs.right_byte hstop
    have hne : hi ≠ 0 := fun h => absurd (h ▸ hge) (by decide)
    have h63 : ¬ hi ≤ 63 := fun h => absurd (UInt8.le_trans hge h) (by decide)
    have htop : stop ≤ b.length := rest.stop_le
    have := ih (.inr hz) budget length (hops₀ + 1) htop (by omega) hlen (by omega)
    simp only [nameLoop, hbyte, Option.bind_eq_bind, Option.bind_some, hne, if_false, h63, hge, hz,
      and_self, if_true, hlow, htarget]
    rw [if_neg, ← hz, this]
    · simp only [Option.bind_some, List.length_cons, Nat.add_sub_add_right]
    · rintro (h | h | h)
      · omega
      · omega
      · exact h hk

/-- The plain form of a name goes through no pointer. By recursion on the labels, whose octets stand
in the buffer one behind the other. -/
theorem reach_plain {b y : Bytes} (known : List Nat) {stop : Nat} : ∀ {ls : List Bytes} {pos : Nat},
    (∀ l ∈ ls, l ≠ [] ∧ l.length ≤ 63) → Span b pos stop (Name.labelsWire ls ++ y) →
    ∃ positions, Reach b known pos ls 0 positions (pos + (Name.labelsWire ls).length)
  | [], pos, _, hs => ⟨_, .root hs.left⟩
  | l :: ls, pos, hok, hs => by
    rw [Name.labelsWire_cons, List.append_assoc] at hs
    have hl : Span b pos (pos + 1 + l.length) (UInt8.ofNat l.length :: l) := by
      have := hs.left
      rwa [List.length_cons, Nat.add_comm l.length, ← Nat.add_assoc] at this
    have hr := hs.right
    rw [List.length_cons, Nat.add_comm l.length, ← Nat.add_assoc] at hr
    obtain ⟨positions, ih⟩ := reach_plain known (fun x hx => hok x (List.mem_cons_of_mem _ hx)) hr
    refine ⟨pos :: positions, .label (hok l List.mem_cons_self) hl ?_⟩
    rw [Name.labelsWire_cons, List.length_append, List.length_cons]
    rwa [show pos + (l.length + 1 + (Name.labelsWire ls).length) =
      pos + 1 + l.length + (Name.labelsWire ls).length by omega]

/-- No two lists of labels have one wire form. By recursion on both; an octet in front of a label is
its length and not zero, so the ends are told apart. -/
theorem labelsWire_inj : ∀ {ls ls' : List Bytes}, (∀ l ∈ ls, l ≠ [] ∧ l.length ≤ 63) →
    (∀ l ∈ ls', l ≠ [] ∧ l.length ≤ 63) → Name.labelsWire ls = Name.labelsWire ls' → ls = ls'
  | [], [], _, _, _ => rfl
  | [], l :: ls, _, h, he => by
    rw [Name.labelsWire_cons, Name.labelsWire_nil, List.cons_append] at he
    exact absurd (List.cons.inj he).1.symm (label_octet (h l List.mem_cons_self)).2.1
  | l :: ls, [], h, _, he => by
    rw [Name.labelsWire_cons, Name.labelsWire_nil, List.cons_append] at he
    exact absurd (List.cons.inj he).1 (label_octet (h l List.mem_cons_self)).2.1
  | l :: ls, l' :: ls', h, h', he => by
    rw [Name.labelsWire_cons, Name.labelsWire_cons, List.cons_append, List.cons_append] at he
    obtain ⟨hlen, he⟩ := List.cons.inj he
    have hlen : l.length = l'.length := by
      rw [← (label_octet (h l List.mem_cons_self)).1, ← (label_octet (h' l' List.mem_cons_self)).1,
        hlen]
    obtain ⟨hl, hrest⟩ := List.append_inj he hlen
    rw [hl, labelsWire_inj (fun x hx => h x (List.mem_cons_of_mem _ hx))
      (fun x hx => h' x (List.mem_cons_of_mem _ hx)) hrest]

/-! ## The dictionary -/

/-- How many pointers a name goes through that is written with the dictionary `d`, when `depth` is
the number behind each of its entries. -/
def pointers (d : Dictionary) (depth : Bytes → Nat) : List Bytes → Nat
  | [] => 0
  | l :: ls =>
    if d.entries.contains (Name.labelsWire (l :: ls)) then depth (Name.labelsWire (l :: ls)) + 1
    else pointers d depth ls

/-- The numbers behind the entries after a name has been written: its new suffixes lie behind as
many pointers as the name itself. -/
def deepen (d : Dictionary) (depth : Bytes → Nat) (n : Name) (suffix : Bytes) : Nat :=
  if d.entries.contains suffix then depth suffix else pointers d depth n.labels

/-- A dictionary entry is the known offset of a name that spells its suffix, behind `depth` many
pointers. -/
structure EntryAt (b : Bytes) (known : List Nat) (depth : Bytes → Nat) (pos : Nat)
    (e : Bytes × Nat) :
    Prop where
  lt : e.2 < 16384
  before : e.2 < pos
  mem : e.2 ∈ known
  reach : ∃ ls positions stop, (∀ l ∈ ls, l ≠ [] ∧ l.length ≤ 63) ∧ e.1 = Name.labelsWire ls ∧
    depth e.1 < ls.length ∧ Reach b known e.2 ls (depth e.1) positions stop

/-- A suffix is noted where a pointer can reach it; the entries that were there stay. -/
theorem Dictionary.mem_note {d : Dictionary} {suffix : Bytes} {len : Nat} {e : Bytes × Nat}
    (h : e ∈ (d.note suffix len).entries.entries) :
    e ∈ d.entries.entries ∨ len < 16384 ∧ e = (suffix, len) := by
  unfold Dictionary.note at h
  split at h
  · next hc =>
    rcases OrdMap.mem_entries_insert h with he | ⟨hk, hv⟩
    · exact .inl he.1
    · exact .inr ⟨hc.2.2, Prod.ext (sameKey_iff.1 hk) hv⟩
  · exact .inl h

/-- Noting a suffix does not change what is found for shorter ones. -/
theorem Dictionary.get_note {d : Dictionary} {suffix s : Bytes} (len : Nat)
    (h : s.length < suffix.length) : (d.note suffix len).entries.get s = d.entries.get s := by
  unfold Dictionary.note
  split
  · exact OrdMap.get_insert_of_ne _ _ fun hk => by
      rw [sameKey_iff.1 hk] at h
      exact Nat.lt_irrefl _ h
  · rfl

/-- What is not in the dictionary afterwards was not in it before. -/
theorem Dictionary.contains_of_note {d : Dictionary} {suffix s : Bytes} {len : Nat}
    (h : (d.note suffix len).entries.contains s = false) : d.entries.contains s = false := by
  rw [OrdMap.contains_eq_false_iff] at h ⊢
  unfold Dictionary.note at h
  split at h
  · rw [OrdMap.get_insert] at h
    split at h
    · exact absurd h (by simp)
    · exact h
  · exact h

/-- A name is longer than what follows its first label. -/
theorem length_labelsWire_lt (l : Bytes) (ls : List Bytes) :
    (Name.labelsWire ls).length < (Name.labelsWire (l :: ls)).length := by
  rw [Name.labelsWire_cons, List.length_append, List.length_cons]
  omega

/-- Noting a suffix does not change how many pointers shorter names take; the induction is on the
labels. -/
theorem pointers_note {d : Dictionary} {suffix : Bytes} (depth : Bytes → Nat) (len : Nat) :
    ∀ {ls : List Bytes}, (Name.labelsWire ls).length < suffix.length →
    pointers (d.note suffix len) depth ls = pointers d depth ls
  | [], _ => rfl
  | l :: ls, h => by
    have hlt := length_labelsWire_lt l ls
    unfold pointers OrdMap.contains
    rw [Dictionary.get_note len h, pointers_note depth len (Nat.lt_trans hlt h)]

/-- What the compressing loop does for a name: it can be read from there through the pointers the
dictionary gives it, and the entries it adds are offsets of its own suffixes. -/
structure Compresses (b : Bytes) (known : List Nat) (depth : Bytes → Nat) (d d' : Dictionary)
    (len : Nat) (ls : List Bytes) (out : Bytes) (positions : List Nat) : Prop where
  reach : Reach b known len ls (pointers d depth ls) positions (len + out.length)
  few : pointers d depth ls ≤ ls.length
  entries : ∀ e ∈ d'.entries.entries, e ∈ d.entries.entries ∨
    (d.entries.contains e.1 = false ∧ e.2 < 16384 ∧ e.2 < len + out.length ∧ e.2 ∈ positions ∧
      ∃ ls' positions' stop, (∀ l ∈ ls', l ≠ [] ∧ l.length ≤ 63) ∧ e.1 = Name.labelsWire ls' ∧
        pointers d depth ls < ls'.length ∧
        Reach b known e.2 ls' (pointers d depth ls) positions' stop)

/-- The compressing loop looks up suffixes that are no longer than the one at hand, so the entries
that it adds on the way need not be right before it ends. -/
theorem Dictionary.writeLabels_compresses {b y : Bytes} {known : List Nat} {depth : Bytes → Nat}
    {stop : Nat} : ∀ {ls : List Bytes} {d d' : Dictionary} {len : Nat} {out : Bytes},
    (∀ l ∈ ls, l ≠ [] ∧ l.length ≤ 63) → d.writeLabels ls len = some (out, d') →
    Span b len stop (out ++ y) →
    (∀ e ∈ d.entries.entries, e.1.length ≤ (Name.labelsWire ls).length →
      EntryAt b known depth len e) →
    ∃ positions, Compresses b known depth d d' len ls out positions
  | [], d, d', len, out, _, h, hs, _ => by
    unfold Dictionary.writeLabels at h
    split at h
    · exact absurd h (by simp)
    · simp only [Option.some.injEq, Prod.mk.injEq] at h
      obtain ⟨rfl, rfl⟩ := h
      exact ⟨[len], .root hs.left, Nat.le_refl _, fun e he => .inl he⟩
  | l :: ls, d, d', len, out, hok, h, hs, hd => by
    unfold Dictionary.writeLabels at h
    simp only at h
    split at h
    · next offset hget =>
      split at h
      · exact absurd h (by simp)
      · simp only [Option.some.injEq, Prod.mk.injEq] at h
        obtain ⟨rfl, rfl⟩ := h
        obtain ⟨hlt, hbefore, hknown, ls', positions, stop', hok', he, hdepth, hat⟩ :=
          hd _ (OrdMap.mem_iff_get.2 hget) (Nat.le_refl _)
        obtain rfl := labelsWire_inj hok hok' he
        have hp : pointers d depth (l :: ls) = depth (Name.labelsWire (l :: ls)) + 1 := by
          unfold pointers
          rw [if_pos (OrdMap.contains_iff.2 ⟨_, hget⟩)]
        refine ⟨len :: positions, ?_, hp ▸ hdepth, fun e he => .inl he⟩
        rw [hp, length_toBe]
        refine .pointer hlt hbefore hknown ?_ hat
        simpa using hs.left
    · next hget =>
      split at h
      · exact absurd h (by simp)
      · obtain ⟨⟨out', d₂⟩, hw, h⟩ := Option.bind_eq_some_iff.1 h
        simp only [Option.some.injEq, Prod.mk.injEq] at h
        obtain ⟨rfl, rfl⟩ := h
        have hsr : Span b (len + (l.length + 1)) stop (out' ++ y) := by
          have := Span.right (x := UInt8.ofNat l.length :: l) (y := out' ++ y)
            (by simpa using hs)
          simpa using this
        have hsl : Span b len (len + 1 + l.length) (UInt8.ofNat l.length :: l) := by
          have := Span.left (x := UInt8.ofNat l.length :: l) (y := out' ++ y) (by simpa using hs)
          simpa [Nat.add_comm 1, Nat.add_assoc] using this
        have hlonger := length_labelsWire_lt l ls
        have hp : pointers (d.note (Name.labelsWire (l :: ls)) len) depth ls =
            pointers d depth (l :: ls) := by
          rw [pointers_note depth len hlonger]
          conv_rhs => unfold pointers
          rw [if_neg (by rw [OrdMap.contains, hget]; simp)]
        obtain ⟨positions, hreach, hfew, hentries⟩ :=
          writeLabels_compresses (fun x hx => hok x (List.mem_cons_of_mem _ hx)) hw hsr
          (fun e he hle => by
            rcases Dictionary.mem_note he with he | ⟨-, rfl⟩
            · have := hd e he (hle.trans hlonger.le)
              exact ⟨this.lt, Nat.lt_of_lt_of_le this.before (Nat.le_add_right _ _), this.mem,
                this.reach⟩
            · exact absurd hle (Nat.not_le.2 hlonger))
        rw [hp] at hreach hfew hentries
        have hlen : len + (UInt8.ofNat l.length :: l ++ out').length =
            len + (l.length + 1) + out'.length := by
          rw [List.length_append, List.length_cons, ← Nat.add_assoc]
        have hthis : Reach b known len (l :: ls) (pointers d depth (l :: ls)) (len :: positions)
            (len + (UInt8.ofNat l.length :: l ++ out').length) := by
          refine .label (hok l List.mem_cons_self) hsl ?_
          rwa [hlen, show len + 1 + l.length = len + (l.length + 1) by omega]
        refine ⟨len :: positions, hthis, Nat.le_succ_of_le hfew, fun e he => ?_⟩
        have hnew : d.entries.contains (Name.labelsWire (l :: ls)) = false := by
          rw [OrdMap.contains, hget]
          rfl
        rcases hentries e he with he | ⟨hno, hlt, hbefore, hmem, hat⟩
        · rcases Dictionary.mem_note he with he | ⟨hlt, rfl⟩
          · exact .inl he
          · refine .inr ⟨hnew, hlt, ?_, List.mem_cons_self, l :: ls, _, _, hok, rfl,
              Nat.lt_succ_of_le hfew, hthis⟩
            rw [hlen]
            omega
        · refine .inr ⟨?_, hlt, by rw [hlen]; exact hbefore, List.mem_cons_of_mem _ hmem, hat⟩
          exact Dictionary.contains_of_note hno

/-! ## Chains of pointers -/

/-- A part of an encoded message: octets that hold no name, or a name, which may be compressed. -/
inductive Piece
  | octets (n : Nat)
  | name (compress : Bool) (n : Name)

/-- Whether no name lies behind more than 64 pointers when the pieces are written in order at `len`,
with the dictionary `d` whose entries lie behind `depth` many. -/
def shallow : List Piece → Dictionary → (depth : Bytes → Nat) → (len : Nat) → Bool
  | [], _, _, _ => true
  | .octets n :: ps, d, depth, len => shallow ps d depth (len + n)
  | .name compress n :: ps, d, depth, len =>
    decide (compress = true → pointers d depth n.labels ≤ 64) &&
      match writeName compress n d len with
      | none => true
      | some (out, d') =>
        shallow ps d' (if compress then deepen d depth n else depth) (len + out.length)

/-- The length of the pieces without compression. -/
def plainLength : List Piece → Nat
  | [] => 0
  | .octets n :: ps => n + plainLength ps
  | .name _ n :: ps => n.wire.length + plainLength ps

/-- The lengths of pieces add up. -/
theorem plainLength_append : ∀ (ps qs : List Piece),
    plainLength (ps ++ qs) = plainLength ps + plainLength qs
  | [], qs => (Nat.zero_add _).symm
  | .octets n :: ps, qs => by
    simp only [List.cons_append, plainLength, plainLength_append ps qs, Nat.add_assoc]
  | .name _ n :: ps, qs => by
    simp only [List.cons_append, plainLength, plainLength_append ps qs, Nat.add_assoc]

/-- Pieces that are not compressed hold no pointers. -/
theorem shallow_plain : ∀ (ps : List Piece) (d : Dictionary) (depth : Bytes → Nat) (len : Nat),
    (∀ n, .name true n ∉ ps) → shallow ps d depth len = true
  | [], _, _, _, _ => rfl
  | .octets n :: ps, d, depth, len, h =>
    shallow_plain ps d depth (len + n) fun n hn => h n (List.mem_cons_of_mem _ hn)
  | .name true n :: ps, _, _, _, h => absurd List.mem_cons_self (h n)
  | .name false n :: ps, d, depth, len, h => by
    have := shallow_plain ps d depth (len + n.wire.length) fun n hn =>
      h n (List.mem_cons_of_mem _ hn)
    simpa [shallow, writeName] using this

/-- Pieces that are not compressed only take up room: what follows them is as shallow as if octets
stood in their place. -/
theorem shallow_append_plain {ps : List Piece} : ∀ (xs : List Piece) (d : Dictionary)
    (depth : Bytes → Nat) (len : Nat), (∀ n, .name true n ∉ xs) →
    shallow (xs ++ ps) d depth len = shallow ps d depth (len + plainLength xs)
  | [], _, _, _, _ => rfl
  | .octets n :: xs, d, depth, len, h => by
    rw [List.cons_append, shallow, plainLength, ← Nat.add_assoc]
    exact shallow_append_plain xs d depth (len + n) fun m hm => h m (List.mem_cons_of_mem _ hm)
  | .name true n :: xs, _, _, _, h => absurd List.mem_cons_self (h n)
  | .name false n :: xs, d, depth, len, h => by
    have ih : shallow (xs ++ ps) d depth (len + n.wire.length) = _ :=
      shallow_append_plain xs d depth _ fun m hm => h m (List.mem_cons_of_mem _ hm)
    rw [Nat.add_assoc] at ih
    simpa [shallow, writeName, plainLength] using ih

/-- Where a parser stands that has read what was written before the pieces `ps`: the dictionary
holds known offsets; if the reader must not fail, the names to come lie behind few pointers and are
within the budget; and if they do lie so, then `owed` holds, which is what the reader has found out
about the names before. -/
def Track (must owed : Prop) (b : Bytes) (ps : List Piece) (p : Parser)
    (d : Dictionary) (pos : Nat) :
    Prop :=
  ∃ depth, (∀ e ∈ d.entries.entries, EntryAt b p.known depth pos e) ∧
    (must → shallow ps d depth pos = true ∧ plainLength ps ≤ p.budget) ∧
    (shallow ps d depth pos = true → owed)

/-- Pieces without compression may be exchanged for others of the same length. The track counts only
the names that may be compressed, and where they stand. -/
theorem Track.swap {must owed : Prop} {b : Bytes} {xs ys ps : List Piece} {p : Parser}
    {d : Dictionary} {pos : Nat} (h : Track must owed b (xs ++ ps) p d pos)
    (hx : ∀ n, .name true n ∉ xs) (hy : ∀ n, .name true n ∉ ys)
    (hlen : plainLength ys = plainLength xs) : Track must owed b (ys ++ ps) p d pos := by
  obtain ⟨depth, hd, hm, ho⟩ := h
  rw [shallow_append_plain xs d depth pos hx, plainLength_append] at hm
  rw [shallow_append_plain xs d depth pos hx] at ho
  refine ⟨depth, hd, ?_, ?_⟩
  · rw [shallow_append_plain ys d depth pos hy, plainLength_append, hlen]
    exact hm
  · rw [shallow_append_plain ys d depth pos hy, hlen]
    exact ho

/-- An entry points back, so that it serves later positions as well. -/
theorem EntryAt.later {b : Bytes} {known : List Nat} {depth : Bytes → Nat} {pos pos' : Nat}
    {e : Bytes × Nat} (h : EntryAt b known depth pos e) (hle : pos ≤ pos') :
    EntryAt b known depth pos' e :=
  ⟨h.lt, Nat.lt_of_lt_of_le h.before hle, h.mem, h.reach⟩

/-- An entry stays good when more positions are known. -/
theorem EntryAt.mono {b : Bytes} {known known' : List Nat} {depth depth' : Bytes → Nat} {pos : Nat}
    {e : Bytes × Nat} (h : EntryAt b known depth pos e) (hk : ∀ k ∈ known, k ∈ known')
    (hdepth : depth' e.1 = depth e.1) : EntryAt b known' depth' pos e := by
  obtain ⟨hlt, hbefore, hmem, ls, positions, stop, hok, he, hd, hr⟩ := h
  exact ⟨hlt, hbefore, hk _ hmem, ls, positions, stop, hok, he, hdepth ▸ hd, hdepth ▸ hr.mono hk⟩

/-- Octets without names are skipped. -/
theorem Track.octets {must owed : Prop} {b : Bytes} {n : Nat} {ps : List Piece} {p : Parser}
    {d : Dictionary} {pos : Nat} (h : Track must owed b (.octets n :: ps) p d pos) :
    Track must owed b ps p d (pos + n) := by
  obtain ⟨depth, hd, hm, ho⟩ := h
  refine ⟨depth, fun e he => (hd e he).later (Nat.le_add_right _ _), fun h => ⟨(hm h).1, ?_⟩, ho⟩
  exact Nat.le_trans (Nat.le_add_left _ _) (hm h).2

/-- A name goes through no more offsets than it has octets. Each label and each pointer adds one
offset, there are no more pointers than labels, and a label takes two octets at least. -/
theorem Reach.length_positions_le {b : Bytes} {known : List Nat} {pos hops stop : Nat} {n : Name}
    {positions : List Nat} (h : Reach b known pos n.labels hops positions stop)
    (hle : hops ≤ n.labels.length) : positions.length ≤ n.wire.length := by
  have hsum : ∀ ls : List Bytes, (∀ l ∈ ls, l ≠ [] ∧ l.length ≤ 63) →
      2 * ls.length < (Name.labelsWire ls).length := by
    intro ls
    induction ls with
    | nil => exact fun _ => Nat.zero_lt_one
    | cons l ls ih =>
      intro hok
      have hl := List.length_pos_of_ne_nil (hok l List.mem_cons_self).1
      have := ih fun x hx => hok x (List.mem_cons_of_mem _ hx)
      rw [Name.labelsWire_cons, List.length_append, List.length_cons, List.length_cons]
      omega
  have := hsum n.labels n.ok.1
  rw [h.length_positions, Name.wire]
  omega

/-- The reader of a name returns it, if it lies behind few enough pointers. The limits are
conditions of success only where `must` asks for it. -/
theorem Parser.name_reach {must : Prop} {b : Bytes} {p : Parser}
    {pos stop limit hops : Nat} {n : Name} {positions : List Nat} {z : Bool}
    (h : Reach b p.known pos n.labels hops positions stop) (hz : hops = 0 ∨ z = true)
    (hle : stop ≤ limit) (hm : must → hops ≤ 64 ∧ positions.length ≤ p.budget) :
    Yields must (p.name b pos limit z) fun r =>
      r.1 = n ∧ r.2.1 = stop ∧ hops ≤ 64 ∧ r.2.2.known = positions ++ p.known ∧
        (must → r.2.2.budget = p.budget - positions.length) := by
  unfold Parser.name
  by_cases hmust : must
  · obtain ⟨hhops, hbudget⟩ := hm hmust
    rw [nameLoop_succeeds h hz p.budget 1 0 hle hbudget n.ok.2 (by omega)]
    simp only [Option.bind_eq_bind, Option.bind_some, Name.fromLabels_labels, Yields.some_iff]
    exact ⟨trivial, trivial, hhops, trivial, fun _ => trivial⟩
  · cases hr : nameLoop b z p.known p.budget pos limit 1 0 with
    | none => exact hmust
    | some r =>
      obtain ⟨hl, hp, hstop, hhops⟩ := nameLoop_reach hr h (Nat.zero_le 64)
      simp only [Option.bind_eq_bind, Option.bind_some, hl, Name.fromLabels_labels, Yields.some_iff]
      exact ⟨trivial, hstop, by omega, by rw [hp], fun hm' => absurd hm' hmust⟩

/-- The reader returns the name that was written. Without compression its labels stand in place;
with compression the writer ends them with a pointer to a suffix of the dictionary, from where the
rest is reached (`Reach`), if not through too many pointers. -/
theorem Track.name {must owed : Prop} {b out y : Bytes} {compress z : Bool} {n : Name}
    {ps : List Piece} {p : Parser} {d d' : Dictionary} {pos stop : Nat}
    (h : Track must owed b (.name compress n :: ps) p d pos) (hz : compress = true → z = true)
    (hw : writeName compress n d pos = some (out, d')) (hs : Span b pos stop (out ++ y)) :
    Yields must (p.name b pos stop z) fun r =>
      r.1 = n ∧ r.2.1 = pos + out.length ∧ Track must owed b ps r.2.2 d' r.2.1 := by
  obtain ⟨depth, hd, hm, ho⟩ := h
  have hstop : pos + out.length ≤ stop := by
    rw [hs.stop_eq, List.length_append]
    omega
  unfold shallow plainLength at hm
  unfold shallow at ho
  rw [hw] at hm ho
  cases hc : compress with
  | false =>
    subst hc
    simp only [writeName, Bool.false_eq_true, if_false, Option.some.injEq, Prod.mk.injEq] at hw
    obtain ⟨rfl, rfl⟩ := hw
    obtain ⟨positions, hr⟩ := reach_plain p.known n.ok.1 hs
    have hlen := hr.length_positions_le (Nat.zero_le _)
    simp only [Bool.false_eq_true, false_implies, decide_true, Bool.true_and, if_false] at hm ho
    refine (Parser.name_reach hr (.inl rfl) hstop fun h : must => ?_).mono ?_
    · have := (hm h).2
      exact ⟨Nat.zero_le _, by omega⟩
    · rintro ⟨n', pos', p'⟩ ⟨hn, hpos, -, hknown, hbudget⟩
      simp only at hn hpos hknown hbudget
      subst hn hpos
      refine ⟨rfl, rfl, depth, fun e he => ?_, fun h => ⟨(hm h).1, ?_⟩, ho⟩
      · refine ((hd e he).mono (fun k hk => ?_) rfl).later (Nat.le_add_right _ _)
        rw [hknown]
        exact List.mem_append_right _ hk
      · have := (hm h).2
        have := hbudget h
        simp only at this ⊢
        omega
  | true =>
    subst hc
    obtain ⟨positions, hr, hfew, hentries⟩ := Dictionary.writeLabels_compresses n.ok.1 hw hs
      fun e he _ => hd e he
    have hlen := hr.length_positions_le hfew
    simp only [true_implies, if_true, Bool.and_eq_true, decide_eq_true_eq] at hm ho
    refine (Parser.name_reach hr (.inr (hz rfl)) hstop fun h : must => ?_).mono ?_
    · have := (hm h).2
      exact ⟨(hm h).1.1, by omega⟩
    · rintro ⟨n', pos', p'⟩ ⟨hn, hpos, hhops, hknown, hbudget⟩
      simp only at hn hpos hknown hbudget
      subst hn hpos
      refine ⟨rfl, rfl, deepen d depth n', fun e he => ?_, fun h => ⟨(hm h).1.2, ?_⟩,
        fun h => ho ⟨hhops, h⟩⟩
      · have hsub : ∀ k ∈ p.known, k ∈ p'.known := fun k hk => by
          rw [hknown]
          exact List.mem_append_right _ hk
        rcases hentries e he with he | ⟨hno, hlt, hbefore, hmem, ls, positions', stop',
          hok, he1, hdep, hat⟩
        · have hin : d.entries.contains e.1 = true :=
            OrdMap.contains_iff.2 ⟨e.2, OrdMap.get_of_mem he⟩
          exact ((hd e he).mono hsub (if_pos hin)).later (Nat.le_add_right _ _)
        · have hdepth : deepen d depth n' e.1 = pointers d depth n'.labels :=
            if_neg (by rw [hno]; simp)
          refine ⟨hlt, hbefore, ?_, ls, positions', stop', hok, he1, ?_, ?_⟩
          · rw [hknown]
            exact List.mem_append_left _ hmem
          · rw [hdepth]
            exact hdep
          · rw [hdepth]
            exact hat.mono hsub
      · have := (hm h).2
        have := hbudget h
        simp only at this ⊢
        omega

end SnacMachine.Dns
