import SnacMachine.Dns.RoundTrip

/-!
# What the parser reads

The parser compared on two buffers. A name may lie anywhere in the message behind pointers, but a
pointer leads to an offset that the parser has been through as part of a name, so two buffers on
which all names read so far look alike (`Shared`) give the same name for the same octets
(`nameLoop_agree`). From there it follows for record data (`rdata_carries`), for records up to their
lifetimes (`parseRecord_agree`) and for sections (`parseRecords_agree`, `parseQuestions_agree`).
-/

namespace SnacMachine.Dns

/-- The part of a name at an offset is the same in both buffers and goes on at a known offset. -/
def PartShared (b b' : Bytes) (known : List Nat) (k : Nat) : Prop :=
  ∃ c : UInt8, b[k]? = some c ∧ b'[k]? = some c ∧
    (c = 0 ∨
    (c ≠ 0 ∧ c ≤ 63 ∧ Agree b b' k (k + 1 + c.toNat) ∧ k + 1 + c.toNat ∈ known) ∨
    (192 ≤ c ∧ ∃ low : UInt8, b[k + 1]? = some low ∧ b'[k + 1]? = some low ∧
      (c.toNat - 192) * 256 + low.toNat ∈ known))

/-- Every known offset is that of a part of a name which is the same in both buffers. -/
def Shared (b b' : Bytes) (known : List Nat) : Prop := ∀ k ∈ known, PartShared b b' known k

/-- What two buffers share stays shared when more positions are known. -/
theorem PartShared.mono {b b' : Bytes} {known known' : List Nat} {k : Nat}
    (h : PartShared b b' known k) (hk : ∀ i ∈ known, i ∈ known') : PartShared b b' known' k := by
  obtain ⟨c, hc, hc', h⟩ := h
  refine ⟨c, hc, hc', ?_⟩
  rcases h with h | ⟨h0, h63, ha, hn⟩ | ⟨h192, low, hl, hl', hn⟩
  · exact .inl h
  · exact .inr (.inl ⟨h0, h63, ha, hk _ hn⟩)
  · exact .inr (.inr ⟨h192, low, hl, hl', hk _ hn⟩)

/-! ## Reads -/

/-- Octets that lie where two buffers agree are taken from both alike. -/
theorem take_agree {b b' : Bytes} {pos stop stop' n q : Nat} {x : Bytes}
    (h : take b pos stop n = some (x, q)) (ha : Agree b b' pos q) (hs : q ≤ stop')
    (hb : q ≤ b'.length) : take b' pos stop' n = some (x, q) := by
  obtain ⟨rfl, -, rfl, -, -⟩ := take_eq_some h
  unfold take
  rw [if_pos ⟨hs, hb⟩, ha.octets]

/-- An octet that lies where two buffers agree is taken from both alike. -/
theorem takeByte_agree {b b' : Bytes} {pos stop stop' q : Nat} {c : UInt8}
    (h : takeByte b pos stop = some (c, q)) (ha : Agree b b' pos q) (hs : q ≤ stop')
    (hb : q ≤ b'.length) : takeByte b' pos stop' = some (c, q) := by
  unfold takeByte at h ⊢
  obtain ⟨⟨x, p⟩, hx, he⟩ := Option.map_eq_some_iff.1 h
  simp only [Prod.mk.injEq] at he
  obtain ⟨rfl, rfl⟩ := he
  rw [take_agree hx ha hs hb]
  rfl

/-- Taking an octet takes one octet, which is within the bounds. -/
theorem takeByte_le {b : Bytes} {pos stop q : Nat} {c : UInt8}
    (h : takeByte b pos stop = some (c, q)) :
    q = pos + 1 ∧ q ≤ stop ∧ q ≤ b.length := by
  unfold takeByte at h
  obtain ⟨⟨x, p⟩, hx, he⟩ := Option.map_eq_some_iff.1 h
  simp only [Prod.mk.injEq] at he
  obtain ⟨-, rfl⟩ := he
  obtain ⟨-, -, rfl, hs, hb⟩ := take_eq_some hx
  exact ⟨rfl, hs, hb⟩

/-! ## Names -/

/-- An octet that both buffers hold. -/
theorem agree_byte {b b' : Bytes} {pos : Nat} {c : UInt8} (h : b[pos]? = some c)
    (h' : b'[pos]? = some c) : Agree b b' pos (pos + 1) := by
  intro i h₁ h₂
  obtain rfl : i = pos := by omega
  rw [h, h']

/-- Where a name ends for the reader of the message: behind where it starts, and within the limit
and the buffer. By recursion on the budget, one case for each kind of octet; a pointer ends the name
where it stands, wherever it leads. -/
theorem nameLoop_bounds {b : Bytes} {z : Bool} {known : List Nat} :
    ∀ {budget pos limit length hops : Nat} {r : NameRun},
    nameLoop b z known budget pos limit length hops = some r →
    pos < r.pos ∧ r.pos ≤ limit ∧ r.pos ≤ b.length
  | 0, _, _, _, _, _, h => by simp [nameLoop] at h
  | budget + 1, pos, limit, length, hops, r, h => by
    simp only [nameLoop, Option.bind_eq_bind, Option.bind_eq_some_iff] at h
    obtain ⟨⟨c, next⟩, hc, h⟩ := h
    obtain ⟨rfl, hle, hble⟩ := takeByte_le hc
    simp only at h
    split at h
    · obtain rfl := Option.some.inj h
      exact ⟨Nat.lt_succ_self _, hle, hble⟩
    · split at h
      · obtain ⟨⟨l, next⟩, hl, h⟩ := Option.bind_eq_some_iff.1 h
        obtain ⟨-, -, rfl, -, -⟩ := take_eq_some hl
        simp only at h
        split at h
        · exact absurd h (by simp)
        · obtain ⟨r', hr, h⟩ := Option.bind_eq_some_iff.1 h
          obtain rfl := Option.some.inj h
          obtain ⟨hlt, hrle, hrb⟩ := nameLoop_bounds hr
          exact ⟨by simp only; omega, hrle, hrb⟩
      · split at h
        · obtain ⟨⟨low, next⟩, hl, h⟩ := Option.bind_eq_some_iff.1 h
          obtain ⟨rfl, hlle, hlble⟩ := takeByte_le hl
          simp only at h
          split at h
          · exact absurd h (by simp)
          · obtain ⟨r', -, h⟩ := Option.bind_eq_some_iff.1 h
            obtain rfl := Option.some.inj h
            exact ⟨by simp only; omega, hlle, hlble⟩
        · exact absurd h (by simp)

/-- The reader returns the same name on both buffers if it starts at a known offset, or in octets
that agree up to where the name ends; and its offsets become known ones. -/
theorem nameLoop_agree {b b' : Bytes} {z : Bool} {known : List Nat} (hsh : Shared b b' known)
    (hlen : b.length ≤ b'.length) :
    ∀ {budget pos limit limit' length hops : Nat} {r : NameRun},
    nameLoop b z known budget pos limit length hops = some r → limit ≤ limit' →
    (pos ∈ known ∨ Agree b b' pos r.pos) →
    nameLoop b' z known budget pos limit' length hops = some r ∧ pos ∈ r.positions ∧
      ∀ k ∈ r.positions, PartShared b b' (r.positions ++ known) k
  | 0, _, _, _, _, _, _, h, _, _ => by simp [nameLoop] at h
  | budget + 1, pos, limit, limit', length, hops, r, h, hlim, hmode => by
    have hlt := (nameLoop_bounds h).1
    simp only [nameLoop, Option.bind_eq_bind, Option.bind_eq_some_iff] at h
    obtain ⟨⟨c, next⟩, hc, h⟩ := h
    obtain ⟨rfl, hle, hble⟩ := takeByte_le hc
    obtain ⟨hcb, -⟩ := takeByte_eq_some hc
    -- The octet at hand is the same in both buffers.
    have hfirst : b'[pos]? = some c := by
      rcases hmode with hk | ha
      · obtain ⟨c₁, h₁, h₁', -⟩ := hsh pos hk
        rw [hcb] at h₁
        rw [h₁', ← h₁]
      · rw [← ha pos (Nat.le_refl _) hlt, hcb]
    have hbyte : takeByte b' pos limit' = some (c, pos + 1) :=
      takeByte_agree hc (agree_byte hcb hfirst) (by omega) (by omega)
    simp only at h
    split at h
    · next h0 =>
      obtain rfl := Option.some.inj h
      refine ⟨?_, List.mem_singleton.2 rfl, fun k hk => ?_⟩
      · simp only [nameLoop, hbyte, Option.bind_eq_bind, Option.bind_some, h0, if_true]
      · obtain rfl := List.mem_singleton.1 hk
        exact ⟨c, hcb, hfirst, .inl h0⟩
    · next h0 =>
      split at h
      · next h63 =>
        obtain ⟨⟨l, next⟩, hl, h⟩ := Option.bind_eq_some_iff.1 h
        obtain ⟨-, hllen, rfl, hlle, hlble⟩ := take_eq_some hl
        simp only at h
        split at h
        · exact absurd h (by simp)
        · next hbound =>
          obtain ⟨r', hr, h⟩ := Option.bind_eq_some_iff.1 h
          obtain rfl := Option.some.inj h
          have hpart :
              (pos ∈ known → pos + 1 + c.toNat ∈ known ∧ Agree b b' pos (pos + 1 + c.toNat)) := by
            intro hk
            obtain ⟨c₁, h₁, -, hpart⟩ := hsh pos hk
            obtain rfl : c = c₁ := by simpa [hcb] using h₁
            rcases hpart with hz | ⟨-, -, ha, hn⟩ | ⟨h192, -⟩
            · exact absurd hz h0
            · exact ⟨hn, ha⟩
            · exact absurd (UInt8.le_trans h192 h63) (by decide)
          have hnext := (nameLoop_bounds hr).1
          obtain ⟨hr', hmem, hparts⟩ :=
            nameLoop_agree hsh hlen hr hlim (by
              rcases hmode with hk | ha
              · exact .inl (hpart hk).1
              · exact .inr (ha.sub (by omega) (Nat.le_refl _)))
          have hagree : Agree b b' pos (pos + 1 + c.toNat) := by
            rcases hmode with hk | ha
            · exact (hpart hk).2
            · exact ha.sub (Nat.le_refl _) (Nat.le_of_lt hnext)
          refine ⟨?_, List.mem_cons_self, fun k hk => ?_⟩
          · simp only [nameLoop, hbyte, Option.bind_eq_bind, Option.bind_some, h0, if_false, h63,
              if_true]
            rw [take_agree hl (hagree.sub (by omega) (Nat.le_refl _)) (by omega) (by omega)]
            simp only [Option.bind_some]
            rw [if_neg hbound, hr']
            rfl
          · rcases List.mem_cons.1 hk with rfl | hk
            · refine ⟨c, hcb, hfirst, .inr (.inl ⟨h0, h63, hagree, ?_⟩)⟩
              exact List.mem_append_left _ (List.mem_cons_of_mem _ hmem)
            · refine (hparts k hk).mono fun i hi => ?_
              rw [List.cons_append]
              exact List.mem_cons_of_mem _ hi
      · next h63 =>
        split at h
        · next h192 =>
          obtain ⟨⟨low, next⟩, hl, h⟩ := Option.bind_eq_some_iff.1 h
          obtain ⟨rfl, hlle, hlble⟩ := takeByte_le hl
          obtain ⟨hlb, -⟩ := takeByte_eq_some hl
          simp only at h
          split at h
          · exact absurd h (by simp)
          · next hbad =>
            obtain ⟨r', hr, h⟩ := Option.bind_eq_some_iff.1 h
            obtain rfl := Option.some.inj h
            have htarget : (c.toNat - 192) * 256 + low.toNat ∈ known := by
              by_contra hno
              exact hbad (.inr (.inr hno))
            obtain ⟨hr', -, hparts⟩ := nameLoop_agree hsh hlen hr hlen (.inl htarget)
            have hlow : b'[pos + 1]? = some low := by
              rcases hmode with hk | ha
              · obtain ⟨c₁, h₁, -, hpart⟩ := hsh pos hk
                obtain rfl : c = c₁ := by simpa [hcb] using h₁
                rcases hpart with hz | ⟨-, h63', -⟩ | ⟨-, low₁, hl₁, hl₁', -⟩
                · exact absurd hz h0
                · exact absurd h63' h63
                · rw [hlb] at hl₁
                  rw [hl₁', ← hl₁]
              · rw [← ha (pos + 1) (by omega) (by simp only; omega), hlb]
            refine ⟨?_, List.mem_cons_self, fun k hk => ?_⟩
            · simp only [nameLoop, hbyte, Option.bind_eq_bind, Option.bind_some, h0, if_false, h63]
              rw [if_pos h192, takeByte_agree hl (agree_byte hlb hlow) (by omega) (by omega)]
              simp only [Option.bind_some]
              rw [if_neg hbad, hr']
              rfl
            · rcases List.mem_cons.1 hk with rfl | hk
              · refine ⟨c, hcb, hfirst, .inr (.inr ⟨h192.1, low, hlb, hlow, ?_⟩)⟩
                exact List.mem_append_right _ htarget
              · refine (hparts k hk).mono fun i hi => ?_
                rw [List.cons_append]
                exact List.mem_cons_of_mem _ hi
        · exact absurd h (by simp)

/-- A name is read from two buffers alike if they agree where it is written and share what it may
refer to. -/
theorem Parser.name_agree {b b' : Bytes} {p p' : Parser} {pos stop stop' q : Nat}
    {z : Bool} {n : Name} (h : p.name b pos stop z = some (n, q, p')) (hsh : Shared b b' p.known)
    (hlen : b.length ≤ b'.length) (ha : Agree b b' pos q) (hs : stop ≤ stop') :
    p.name b' pos stop' z = some (n, q, p') ∧ Shared b b' p'.known := by
  simp only [Parser.name, Option.bind_eq_bind, Option.bind_eq_some_iff, Option.some.injEq,
    Prod.mk.injEq] at h
  obtain ⟨r, hr, n', hn, rfl, rfl, rfl⟩ := h
  obtain ⟨hr', -, hparts⟩ := nameLoop_agree hsh hlen hr hs (.inr ha)
  refine ⟨by simp only [Parser.name, hr', hn, Option.bind_eq_bind, Option.bind_some],
    fun k hk => ?_⟩
  rcases List.mem_append.1 hk with hk | hk
  · exact hparts k hk
  · exact (hsh k hk).mono fun i hi => List.mem_append_right _ hi

/-- A name takes at least one octet, and ends within the bounds. -/
theorem Parser.name_bounds {b : Bytes} {p p' : Parser} {pos stop q : Nat} {z : Bool} {n : Name}
    (h : p.name b pos stop z = some (n, q, p')) : pos < q ∧ q ≤ stop ∧ q ≤ b.length := by
  simp only [Parser.name, Option.bind_eq_bind, Option.bind_eq_some_iff, Option.some.injEq,
    Prod.mk.injEq] at h
  obtain ⟨r, hr, n', hn, -, rfl, -⟩ := h
  exact nameLoop_bounds hr

/-! ## Record data -/

section
variable {b b' : Bytes} {lo pos stop : Nat} (ha : Agree b b' lo stop) (hlen : b.length ≤ b'.length)
include ha hlen

/-- Taken octets carry over, and end within the bounds. -/
theorem take_carries_le (n : Nat) (hlo : lo ≤ pos) :
    Carries (take b pos stop n) (take b' pos stop n) fun r => lo ≤ r.2 ∧ r.2 ≤ stop := by
  rintro ⟨x, q⟩ h
  obtain ⟨-, -, rfl, hs, hb⟩ := take_eq_some h
  exact ⟨take_agree h (ha.sub hlo hs) hs (by omega), by simp only; omega, hs⟩

/-- Taken octets carry over to a buffer that agrees. -/
theorem take_carries (n : Nat) (hlo : lo ≤ pos) :
    Carries (take b pos stop n) (take b' pos stop n) fun r => lo ≤ r.2 :=
  (take_carries_le ha hlen n hlo).mono fun _ h => h.1

/-- A taken octet carries over to a buffer that agrees. -/
theorem takeByte_carries (hlo : lo ≤ pos) :
    Carries (takeByte b pos stop) (takeByte b' pos stop) fun r => lo ≤ r.2 :=
  (take_carries ha hlen 1 hlo).map fun _ h => h

/-- A number of 16 bits carries over to a buffer that agrees. -/
theorem u16_carries (hlo : lo ≤ pos) :
    Carries (u16 b pos stop) (u16 b' pos stop) fun r => lo ≤ r.2 :=
  (take_carries ha hlen 2 hlo).map fun _ h => h

/-- A number of 32 bits carries over to a buffer that agrees. -/
theorem u32_carries (hlo : lo ≤ pos) :
    Carries (u32 b pos stop) (u32 b' pos stop) fun r => lo ≤ r.2 :=
  (take_carries ha hlen 4 hlo).map fun _ h => h

/-- A name carries over to a buffer that agrees and shares what it may refer to. -/
theorem name_carries {p : Parser} (z : Bool) (hsh : Shared b b' p.known) (hlo : lo ≤ pos) :
    Carries (p.name b pos stop z) (p.name b' pos stop z) fun r =>
      lo ≤ r.2.1 ∧ Shared b b' r.2.2.known := by
  rintro ⟨n, q, p'⟩ h
  obtain ⟨hlt, hs, -⟩ := Parser.name_bounds h
  obtain ⟨h', hsh'⟩ := Parser.name_agree h hsh hlen (ha.sub hlo hs) (Nat.le_refl _)
  exact ⟨h', by simp only; omega, hsh'⟩

/-- Strings carry over, one after the other. By recursion on the fuel: the length octet and the
string are read alike from both buffers. -/
theorem txtLoop_carries : ∀ (fuel : Nat) {pos : Nat}, lo ≤ pos →
    Carries (txtLoop b stop fuel pos) (txtLoop b' stop fuel pos) fun _ => True
  | 0, pos, _ => by
    intro r h
    exact ⟨h, trivial⟩
  | fuel + 1, pos, hlo => by
    unfold txtLoop
    by_cases hlt : pos < stop
    · rw [if_pos hlt, if_pos hlt]
      refine (takeByte_carries ha hlen hlo).bind fun r₁ h₁ => ?_
      refine (take_carries ha hlen _ h₁).bind fun r₂ h₂ => ?_
      refine (txtLoop_carries fuel h₂).bind fun r₃ _ => ?_
      exact .some trivial
    · rw [if_neg hlt, if_neg hlt]
      exact .some trivial

/-- Options carry over, one after the other. By recursion on the fuel; the two buffers agree from
`lo` on, and every option lies behind it. -/
theorem optionsLoop_carries (ordered : Bool) : ∀ (fuel : Nat) {pos : Nat} (prev : Option UInt16),
    lo ≤ pos → Carries (optionsLoop b stop ordered fuel pos prev)
      (optionsLoop b' stop ordered fuel pos prev) fun _ => True
  | 0, pos, prev, _ => by
    intro r h
    exact ⟨h, trivial⟩
  | fuel + 1, pos, prev, hlo => by
    unfold optionsLoop
    by_cases hlt : pos < stop
    · rw [if_pos hlt, if_pos hlt]
      refine (u16_carries ha hlen hlo).bind fun r₁ h₁ => ?_
      refine (u16_carries ha hlen h₁).bind fun r₂ h₂ => .guard fun _ => ?_
      refine (take_carries ha hlen _ h₂).bind fun r₃ h₃ => ?_
      refine (optionsLoop_carries ordered fuel _ h₃).bind fun r₄ _ => ?_
      exact .some trivial
    · rw [if_neg hlt, if_neg hlt]
      exact .some trivial

end

/-- The parser of record data returns the same on two buffers that agree on the data. One case for
each form of data, each a sequence of readers that carry over (`Carries.bind`), at positions that
only grow; what names point to is shared by both buffers. -/
theorem rdata_carries {b b' : Bytes} {kind : UInt16} {pos stop : Nat} {p : Parser} (z mdns : Bool)
    (ha : Agree b b' pos stop) (hlen : b.length ≤ b'.length) (hsh : Shared b b' p.known) :
    Carries (p.rdata b kind pos stop z mdns) (p.rdata b' kind pos stop z mdns) fun r =>
      Shared b b' r.2.2.known := by
  have hlo := Nat.le_refl pos
  unfold Parser.rdata
  cases form kind with
  | a =>
    refine .guard fun _ => (take_carries ha hlen 4 hlo).bind fun r _ => ?_
    by_cases hx : r.1.length = 4
    · simp only [hx, dite_true]
      exact .some hsh
    · simp only [hx, dite_false]
      exact .none
  | aaaa =>
    refine .guard fun _ => (take_carries ha hlen 16 hlo).bind fun r _ => ?_
    by_cases hx : r.1.length = 16
    · simp only [hx, dite_true]
      exact .some hsh
    · simp only [hx, dite_false]
      exact .none
  | name => exact (name_carries ha hlen _ hsh hlo).bind fun r h => .some h.2
  | srv =>
    refine (u16_carries ha hlen hlo).bind fun r₁ h₁ => ?_
    refine (u16_carries ha hlen h₁).bind fun r₂ h₂ => ?_
    refine (u16_carries ha hlen h₂).bind fun r₃ h₃ => ?_
    exact (name_carries ha hlen _ hsh h₃).bind fun r h => .some h.2
  | txt =>
    refine (txtLoop_carries ha hlen _ hlo).bind fun r _ => .guard fun _ => ?_
    exact .some hsh
  | soa =>
    refine (name_carries ha hlen _ hsh hlo).bind fun r₁ h₁ => ?_
    refine (name_carries ha hlen _ h₁.2 h₁.1).bind fun r₂ h₂ => ?_
    refine (u32_carries ha hlen h₂.1).bind fun r₃ h₃ => ?_
    refine (u32_carries ha hlen h₃).bind fun r₄ h₄ => ?_
    refine (u32_carries ha hlen h₄).bind fun r₅ h₅ => ?_
    refine (u32_carries ha hlen h₅).bind fun r₆ h₆ => ?_
    exact (u32_carries ha hlen h₆).bind fun r₇ h₇ => .some h₂.2
  | preference =>
    refine (u16_carries ha hlen hlo).bind fun r₁ h₁ => ?_
    exact (name_carries ha hlen _ hsh h₁).bind fun r h => .some h.2
  | twoNames =>
    refine (name_carries ha hlen _ hsh hlo).bind fun r₁ h₁ => ?_
    exact (name_carries ha hlen _ h₁.2 h₁.1).bind fun r₂ h₂ => .some h₂.2
  | px =>
    refine (u16_carries ha hlen hlo).bind fun r₀ h₀ => ?_
    refine (name_carries ha hlen _ hsh h₀).bind fun r₁ h₁ => ?_
    exact (name_carries ha hlen _ h₁.2 h₁.1).bind fun r₂ h₂ => .some h₂.2
  | key =>
    refine (u16_carries ha hlen hlo).bind fun r₁ h₁ => ?_
    refine (takeByte_carries ha hlen h₁).bind fun r₂ h₂ => ?_
    refine (takeByte_carries ha hlen h₂).bind fun r₃ h₃ => ?_
    exact (take_carries ha hlen _ h₃).bind fun r₄ _ => .some hsh
  | sig =>
    refine (u16_carries ha hlen hlo).bind fun r₁ h₁ => ?_
    refine (takeByte_carries ha hlen h₁).bind fun r₂ h₂ => ?_
    refine (takeByte_carries ha hlen h₂).bind fun r₃ h₃ => ?_
    refine (u32_carries ha hlen h₃).bind fun r₄ h₄ => ?_
    refine (u32_carries ha hlen h₄).bind fun r₅ h₅ => ?_
    refine (u32_carries ha hlen h₅).bind fun r₆ h₆ => ?_
    refine (u16_carries ha hlen h₆).bind fun r₇ h₇ => ?_
    refine (name_carries ha hlen _ hsh h₇).bind fun r₈ h₈ => ?_
    refine (take_carries ha hlen _ h₈.1).bind fun r₉ _ => .guard fun _ => ?_
    exact .some h₈.2
  | opt => exact (optionsLoop_carries ha hlen _ _ _ hlo).bind fun r _ => .some hsh
  | nsec =>
    refine (name_carries ha hlen _ hsh hlo).bind fun r₁ h₁ => ?_
    refine (take_carries ha hlen _ h₁.1).bind fun r₂ _ => .guard fun _ => ?_
    exact .some h₁.2
  | svcb =>
    refine (u16_carries ha hlen hlo).bind fun r₁ h₁ => ?_
    refine (name_carries ha hlen _ hsh h₁).bind fun r₂ h₂ => ?_
    refine (optionsLoop_carries ha hlen _ _ _ h₂.1).bind fun r₃ _ => .guard fun _ => ?_
    exact .some h₂.2
  | digest =>
    refine .guard fun _ => (take_carries ha hlen _ hlo).bind fun r _ => .guard fun _ => ?_
    exact .some hsh
  | nsec3 =>
    have hall :
        ∀ q, pos ≤ q ∧ q ≤ stop → Carries (some (Rdata.bytes ((b.drop pos).take (q - pos)), q, p))
        (some (Rdata.bytes ((b'.drop pos).take (q - pos)), q, p)) fun r =>
        Shared b b' r.2.2.known := by
      intro q hq
      have : Agree b b' pos (pos + (q - pos)) := ha.sub (Nat.le_refl _) (by omega)
      rw [this.octets]
      exact .some hsh
    refine (take_carries ha hlen _ hlo).bind fun r₁ h₁ => ?_
    refine (takeByte_carries ha hlen h₁).bind fun r₂ h₂ => ?_
    refine (take_carries_le ha hlen _ h₂).bind fun r₃ h₃ => ?_
    obtain ⟨_, q₃⟩ := r₃
    simp only at h₃ ⊢
    by_cases hk : kind = 50
    · rw [if_pos hk, if_pos hk]
      refine (takeByte_carries ha hlen h₃.1).bind fun r₄ h₄ => .guard fun _ => ?_
      refine (take_carries ha hlen _ h₄).bind fun r₅ h₅ => ?_
      refine (take_carries_le ha hlen _ h₅).bind fun r₆ h₆ => .guard fun _ => ?_
      exact hall _ h₆
    · rw [if_neg hk, if_neg hk]
      exact hall _ h₃
  | unknown => exact (take_carries ha hlen _ hlo).bind fun r _ => .some hsh

/-- Data carries over whatever its form is, with the names in it. -/
theorem data_carries {b b' : Bytes} {c : Context} {update : Bool} {kind cls : UInt16}
    {pos stop : Nat} {p : Parser} (ha : Agree b b' pos stop) (hlen : b.length ≤ b'.length)
    (hsh : Shared b b' p.known) :
    Carries (p.data b c update kind cls pos stop) (p.data b' c update kind cls pos stop) fun r =>
      Shared b b' r.2.2.known := by
  unfold Parser.data
  split
  · exact .some hsh
  · exact rdata_carries _ _ ha hlen hsh

/-! ## Records and questions -/

/-- Where a parsed record lies: one after the other, a name, the lifetime, and the data. -/
structure SpanOk (b : Bytes) (s : RecordSpan) : Prop where
  ttl : s.wireStart < s.ttl
  rdata : s.ttl + 4 < s.wireEnd
  stop : s.wireEnd ≤ b.length

/-- Two buffers agree on a record up to its lifetime. -/
def RecordAgree (b b' : Bytes) (s : RecordSpan) : Prop :=
  Agree b b' s.wireStart s.ttl ∧ Agree b b' (s.ttl + 4) s.wireEnd

/-- The lifetime at an offset. -/
def ttlAt (b : Bytes) (pos : Nat) : UInt32 := UInt32.ofNat (ofBe ((b.drop pos).take 4))

/-- Where a number of 16 bits was read, two octets were there. -/
theorem u16_eq_some {b : Bytes} {pos stop q : Nat} {v : UInt16} (h : u16 b pos stop = some (v, q)) :
    q = pos + 2 ∧ q ≤ stop ∧ q ≤ b.length := by
  obtain ⟨⟨x, q'⟩, hx, he⟩ := Option.map_eq_some_iff.1 h
  obtain ⟨-, -, rfl, hs, hb⟩ := take_eq_some hx
  obtain rfl : pos + 2 = q := (Prod.mk.inj he).2
  exact ⟨rfl, hs, hb⟩

/-- Where a number of 32 bits was read, it is the one that a lifetime at this position is. -/
theorem u32_eq_some {b : Bytes} {pos stop q : Nat} {v : UInt32} (h : u32 b pos stop = some (v, q)) :
    v = ttlAt b pos ∧ q = pos + 4 ∧ q ≤ stop ∧ q ≤ b.length := by
  obtain ⟨⟨x, q'⟩, hx, he⟩ := Option.map_eq_some_iff.1 h
  obtain ⟨rfl, -, rfl, hs, hb⟩ := take_eq_some hx
  obtain ⟨rfl, rfl⟩ := Prod.mk.inj he
  exact ⟨rfl, rfl, hs, hb⟩

/-- A number that lies where two buffers agree is read from both alike. -/
theorem u16_agree {b b' : Bytes} {pos stop stop' q : Nat} {v : UInt16}
    (h : u16 b pos stop = some (v, q)) (ha : Agree b b' pos q) (hs : q ≤ stop')
    (hb : q ≤ b'.length) :
    u16 b' pos stop' = some (v, q) := by
  obtain ⟨⟨x, q'⟩, hx, he⟩ := Option.map_eq_some_iff.1 h
  obtain rfl : q' = q := (Prod.mk.inj he).2
  unfold u16
  rw [take_agree hx ha hs hb]
  exact congrArg some he

/-- What reading a record did: `q` is where its name ended. -/
structure ReadsRecord (b : Bytes) (c : Context) (update : Bool) (section_ : Nat) (seen : Bool)
    (p : Parser) (pos : Nat) (r : Record) (span : RecordSpan) (seen' : Bool)
    (pos' : Nat) (p' : Parser) (q : Nat) (p₁ : Parser) (len : UInt16) : Prop where
  name : p.name b pos b.length true = some (r.name, q, p₁)
  kind : u16 b q b.length = some (r.kind, q + 2)
  cls : u16 b (q + 2) b.length = some (r.cls, q + 4)
  ttl : u32 b (q + 4) b.length = some (r.ttl, q + 8)
  size : u16 b (q + 8) b.length = some (len, q + 10)
  stop : q + 10 + len.toNat ≤ b.length
  opt : ¬ (r.kind = 41 ∧ (section_ ≠ 2 ∨ seen = true ∨ r.name.labels ≠ []))
  data : p₁.data b c update r.kind r.cls (q + 10) (q + 10 + len.toNat) = some (r.data, pos', p')
  ending : pos' = q + 10 + len.toNat
  span : span = ⟨pos, pos', q + 4, q + 10, pos'⟩
  seen' : seen' = (seen || r.kind == 41)

/-- Reading a record is reading its parts in order, each where the one before ends. The binds of the
parser are taken apart, and the fixed fields stand at fixed distances from the end of the name. -/
theorem parseRecord_eq_some {b : Bytes} {c : Context} {update : Bool} {section_ : Nat}
    {seen seen' : Bool} {p p' : Parser} {pos pos' : Nat} {r : Record} {span : RecordSpan} :
    parseRecord b c update section_ seen p pos = some (r, span, seen', pos', p') ↔
      ∃ q p₁ len, ReadsRecord b c update section_ seen p pos r span seen' pos' p' q p₁ len := by
  constructor
  · intro h
    simp only [parseRecord, Option.bind_eq_bind, Option.bind_eq_some_iff, Option.bind_none,
      Option.ite_none_left_eq_some, Option.some.injEq, Prod.mk.injEq, Prod.exists] at h
    obtain ⟨name, q, p₁, hname, kind, q₂, hkind, cls, q₃, hcls, ttl, q₄, httl, len,
      q₅, hlen, hstop, hopt, data, q₆, p₂, hdata, hq, rfl, rfl, rfl, rfl, rfl⟩ := h
    obtain ⟨rfl, -, -⟩ := u16_eq_some hkind
    obtain ⟨rfl, -, -⟩ := u16_eq_some hcls
    obtain ⟨-, rfl, -, -⟩ := u32_eq_some httl
    obtain ⟨rfl, -, -⟩ := u16_eq_some hlen
    obtain rfl := not_not.1 hq
    exact ⟨q, p₁, len, hname, hkind, hcls, httl, hlen, Nat.not_lt.1 hstop, hopt,
      hdata, rfl, rfl, rfl⟩
  · rintro ⟨q, p₁, len, h⟩
    obtain ⟨hname, hkind, hcls, httl, hlen, hstop, hopt, hdata, rfl, rfl, rfl⟩ := h
    simp only [parseRecord, hname, hkind, hcls, httl, hlen, Option.bind_eq_bind, Option.bind_some]
    rw [if_neg (Nat.not_lt.2 hstop), if_neg hopt, hdata]
    simp only [Option.bind_some]
    rw [if_neg (by simp)]

/-- The span of a record says where it is, and where its lifetime is. -/
theorem parseRecord_span {b : Bytes} {c : Context} {update : Bool} {section_ : Nat}
    {seen seen' : Bool} {p p' : Parser} {pos pos' : Nat} {r : Record} {span : RecordSpan}
    (h : parseRecord b c update section_ seen p pos = some (r, span, seen', pos', p')) :
    span.wireStart = pos ∧ span.wireEnd = pos' ∧ SpanOk b span ∧ r.ttl = ttlAt b span.ttl := by
  obtain ⟨q, p₁, len, h⟩ := parseRecord_eq_some.1 h
  have hq := (Parser.name_bounds h.name).1
  have httl := (u32_eq_some h.ttl).1
  have hpos := h.ending
  have hstop := h.stop
  obtain rfl := h.span
  exact ⟨rfl, rfl, ⟨by simp only; omega, by simp only; omega, by simp only; omega⟩, httl⟩

/-- A record is read alike, up to its lifetime, on two buffers that agree on the rest of it. Each
part is read alike (`ReadsRecord`), and what its names point to is shared. -/
theorem parseRecord_agree {b b' : Bytes} {c : Context} {update : Bool} {section_ : Nat}
    {seen seen' : Bool} {p p' : Parser} {pos pos' : Nat} {r : Record} {span : RecordSpan}
    (h : parseRecord b c update section_ seen p pos = some (r, span, seen', pos', p'))
    (hsh : Shared b b' p.known) (hlen : b.length ≤ b'.length) (ha : RecordAgree b b' span) :
    parseRecord b' c update section_ seen p pos =
        some ({ r with ttl := ttlAt b' span.ttl }, span, seen', pos', p') ∧
      Shared b b' p'.known := by
  obtain ⟨q, p₁, len, h⟩ := parseRecord_eq_some.1 h
  obtain ⟨hname, hkind, hcls, httl, hlenread, hstop, hopt, hdata, rfl, rfl, rfl⟩ := h
  obtain ⟨ha₁, ha₂⟩ := ha
  simp only at ha₁ ha₂
  obtain ⟨hname', hsh'⟩ := Parser.name_agree hname hsh hlen
    (ha₁.sub (Nat.le_refl _) (by omega)) hlen
  have hq := (Parser.name_bounds hname).1
  obtain ⟨hdata', hsh''⟩ := data_carries (ha₂.sub (by omega) (Nat.le_refl _)) hlen hsh' _ hdata
  refine ⟨parseRecord_eq_some.2 ⟨q, p₁, len, ?_⟩, hsh''⟩
  refine ⟨hname', ?_, ?_, ?_, ?_, by omega, hopt, hdata', rfl, rfl, rfl⟩
  · exact u16_agree hkind (ha₁.sub (by omega) (by omega)) (by omega) (by omega)
  · exact u16_agree hcls (ha₁.sub (by omega) (by omega)) (by omega) (by omega)
  · have : take b' (q + 4) b'.length 4 = some ((b'.drop (q + 4)).take 4, q + 4 + 4) :=
      if_pos ⟨by omega, by omega⟩
    unfold u32
    rw [this]
    rfl
  · exact u16_agree hlenread (ha₂.sub (by omega) (by omega)) (by omega) (by omega)

/-- Records with the lifetimes that a buffer holds for them. -/
def retimed (b : Bytes) (rs : List Record) (spans : List RecordSpan) : List Record :=
  List.zipWith (fun r s => { r with ttl := ttlAt b s.ttl }) rs spans

/-- Where parsed records lie: one after the other. -/
def SpansFrom (b : Bytes) : (pos : Nat) → List RecordSpan → (stop : Nat) → Prop
  | pos, [], stop => pos = stop
  | pos, s :: ss, stop => s.wireStart = pos ∧ SpanOk b s ∧ SpansFrom b s.wireEnd ss stop

/-- The spans of records follow one another, and hold the lifetimes that the records were read
with. -/
theorem parseRecords_spans {b : Bytes} {c : Context} {update : Bool} {section_ : Nat} :
    ∀ {count : Nat} {seen seen' : Bool} {p p' : Parser} {pos pos' : Nat} {rs : List Record}
      {spans : List RecordSpan},
    parseRecords b c update section_ count seen p pos = some (rs, spans, seen', pos', p') →
    SpansFrom b pos spans pos' ∧ rs.length = spans.length ∧ retimed b rs spans = rs
  | 0, seen, seen', p, p', pos, pos', rs, spans, h => by
    simp only [parseRecords, Option.some.injEq, Prod.mk.injEq] at h
    obtain ⟨rfl, rfl, -, rfl, -⟩ := h
    exact ⟨rfl, rfl, rfl⟩
  | count + 1, seen, seen', p, p', pos, pos', rs, spans, h => by
    simp only [parseRecords, Option.bind_eq_bind, Option.bind_eq_some_iff, Option.some.injEq,
      Prod.mk.injEq, Prod.exists] at h
    obtain ⟨r, s, seen₁, pos₁, p₁, hr, rs', ss, seen₂, pos₂, p₂, hrs, rfl, rfl, -, rfl, -⟩ := h
    obtain ⟨hstart, hend, hok, httl⟩ := parseRecord_span hr
    obtain ⟨hspans, hlen, hret⟩ := parseRecords_spans hrs
    refine ⟨⟨hstart, hok, hend ▸ hspans⟩, by simp [hlen], ?_⟩
    exact List.cons_eq_cons.2 ⟨by simp only [← httl], hret⟩

/-- Records are read alike, up to their lifetimes, on two buffers that agree on the rest of them. By
recursion on their number, with `parseRecord_agree` for each. -/
theorem parseRecords_agree {b b' : Bytes} {c : Context} {update : Bool} {section_ : Nat}
    (hlen : b.length ≤ b'.length) :
    ∀ {count : Nat} {seen seen' : Bool} {p p' : Parser} {pos pos' : Nat}
      {rs : List Record} {spans : List RecordSpan},
    parseRecords b c update section_ count seen p pos = some (rs, spans, seen', pos', p') →
    Shared b b' p.known → (∀ s ∈ spans, RecordAgree b b' s) →
    parseRecords b' c update section_ count seen p pos =
        some (retimed b' rs spans, spans, seen', pos', p') ∧ Shared b b' p'.known
  | 0, seen, seen', p, p', pos, pos', rs, spans, h, hsh, _ => by
    simp only [parseRecords, Option.some.injEq, Prod.mk.injEq] at h
    obtain ⟨rfl, rfl, rfl, rfl, rfl⟩ := h
    exact ⟨rfl, hsh⟩
  | count + 1, seen, seen', p, p', pos, pos', rs, spans, h, hsh, ha => by
    simp only [parseRecords, Option.bind_eq_bind, Option.bind_eq_some_iff, Option.some.injEq,
      Prod.mk.injEq, Prod.exists] at h
    obtain ⟨r, s, seen₁, pos₁, p₁, hr, rs', ss, seen₂, pos₂, p₂, hrs, rfl, rfl, rfl, rfl, rfl⟩ := h
    obtain ⟨hr', hsh₁⟩ := parseRecord_agree hr hsh hlen (ha s List.mem_cons_self)
    obtain ⟨hrs', hsh₂⟩ := parseRecords_agree hlen hrs hsh₁ fun x hx =>
      ha x (List.mem_cons_of_mem _ hx)
    refine ⟨?_, hsh₂⟩
    simp only [parseRecords, hr', hrs', Option.bind_eq_bind, Option.bind_some]
    rfl

/-- Reading questions does not go back. By recursion on their number; each part of a question moves
the position on. -/
theorem parseQuestions_le {b : Bytes} : ∀ {count : Nat} {p p' : Parser} {pos pos' : Nat}
    {qs : List Question}, parseQuestions b count p pos = some (qs, pos', p') → pos ≤ pos'
  | 0, p, p', pos, pos', qs, h => by
    simp only [parseQuestions, Option.some.injEq, Prod.mk.injEq] at h
    exact h.2.1.le
  | count + 1, p, p', pos, pos', qs, h => by
    simp only [parseQuestions, Option.bind_eq_bind, Option.bind_eq_some_iff, Option.some.injEq,
      Prod.mk.injEq, Prod.exists] at h
    obtain ⟨_, q₁, _, hname, _, q₂, hkind, _, q₃, hcls, _, q₄, _, hqs, -, rfl, -⟩ := h
    have := (Parser.name_bounds hname).1
    have := (u16_eq_some hkind).1
    have := (u16_eq_some hcls).1
    have := parseQuestions_le hqs
    omega

/-- Questions are read alike on two buffers that agree on them. By recursion on their number; each
begins where the one before has ended. -/
theorem parseQuestions_agree {b b' : Bytes} (hlen : b.length ≤ b'.length) :
    ∀ {count : Nat} {p p' : Parser} {pos pos' : Nat} {qs : List Question},
    parseQuestions b count p pos = some (qs, pos', p') → Shared b b' p.known →
    Agree b b' pos pos' →
    parseQuestions b' count p pos = some (qs, pos', p') ∧ Shared b b' p'.known
  | 0, p, p', pos, pos', qs, h, hsh, _ => by
    simp only [parseQuestions, Option.some.injEq, Prod.mk.injEq] at h
    obtain ⟨rfl, rfl, rfl⟩ := h
    exact ⟨rfl, hsh⟩
  | count + 1, p, p', pos, pos', qs, h, hsh, ha => by
    simp only [parseQuestions, Option.bind_eq_bind, Option.bind_eq_some_iff, Option.some.injEq,
      Prod.mk.injEq, Prod.exists] at h
    obtain ⟨name, q₁, p₁, hname, kind, q₂, hkind, cls, q₃, hcls, qs', q₄, p₂, hqs, rfl, rfl, rfl⟩ :=
      h
    obtain ⟨rfl, -, hb₂⟩ := u16_eq_some hkind
    obtain ⟨rfl, -, hb₃⟩ := u16_eq_some hcls
    have hq₁ := (Parser.name_bounds hname).1
    have hq₄ := parseQuestions_le hqs
    obtain ⟨hname', hsh₁⟩ := Parser.name_agree hname hsh hlen
      (ha.sub (Nat.le_refl _) (by omega)) hlen
    have hkind' := u16_agree hkind (ha.sub (by omega) (by omega)) (Nat.le_trans hb₂ hlen)
      (Nat.le_trans hb₂ hlen)
    have hcls' := u16_agree hcls (ha.sub (by omega) (by omega)) (Nat.le_trans hb₃ hlen)
      (Nat.le_trans hb₃ hlen)
    obtain ⟨hqs', hsh₂⟩ := parseQuestions_agree hlen hqs hsh₁ (ha.sub (by omega) (Nat.le_refl _))
    refine ⟨?_, hsh₂⟩
    simp only [parseQuestions, hname', hkind', hcls', hqs', Option.bind_eq_bind, Option.bind_some]

end SnacMachine.Dns
