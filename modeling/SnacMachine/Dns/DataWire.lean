import SnacMachine.Dns.NameWire

/-!
# Record data on the wire

`Fits kind data` says that record data has the shape of its record type and passes the checks that
the parser makes on that shape. The parser returns data that fits (`rdata_fits`); the writer writes
fitting data (`writeRdata_plain`), and the parser reads back what was written (`Track.rdata`).
-/

namespace SnacMachine.Dns

/-- Options whose keys increase from a previous one. -/
def Ascending : Option UInt16 → List (UInt16 × Bytes) → Prop
  | _, [] => True
  | prev, o :: v => prev.any (fun p => o.1 ≤ p) = false ∧ Ascending (some o.1) v

/-- The octets of NSEC3 (type 50) and NSEC3PARAM data. -/
def Nsec3Data (kind : UInt16) (x : Bytes) : Prop :=
  ∃ head salt rest, x = head ++ (UInt8.ofNat salt.length :: (salt ++ rest)) ∧ head.length = 4 ∧
    salt.length ≤ 255 ∧
    if kind = 50 then ∃ hash bitmap, rest = UInt8.ofNat hash.length :: (hash ++ bitmap) ∧
      hash ≠ [] ∧
      hash.length ≤ 255 ∧ bitmapValid bitmap = true
    else rest = []

/-- Record data of a record type's shape, within the bounds that the parser checks. -/
def Fits (kind : UInt16) (data : Rdata) : Prop :=
  match form kind, data with
  | .a, .a _ => True
  | .aaaa, .aaaa _ => True
  | .name, .name _ => True
  | .srv, .srv .. => True
  | .txt, .txt v => v ≠ [] ∧ ∀ s ∈ v, s.length ≤ 255
  | .soa, .soa .. => True
  | .preference, .preference .. => True
  | .twoNames, .twoNames .. => True
  | .px, .px .. => True
  | .key, .key .. => True
  | .sig, .sig _ _ _ _ _ _ _ _ signature => signature ≠ []
  | .opt, .opt v => ∀ o ∈ v, o.2.length ≤ 65535
  | .nsec, .nsec _ bitmap => bitmapValid bitmap = true
  | .svcb, .svcb priority _ params => (∀ o ∈ params, o.2.length ≤ 65535) ∧ Ascending none params ∧
    (priority ≠ 0 → svcbValid params = true)
  | .digest, .bytes x => 4 ≤ x.length ∧
    (digestSize (x.getD 3 0)).any (fun size => x.length ≠ size + 4) = false
  | .nsec3, .bytes x => Nsec3Data kind x
  | .unknown, .opaque_ _ => True
  | _, _ => False

/-- Whether record data is of a type that the program does not know. -/
def Rdata.isOpaque : Rdata → Bool
  | .opaque_ _ => true
  | _ => false

/-- Data equal to a name is a name equal to it. -/
theorem Rdata.eq_name_of_beq {data : Rdata} {n : Name} (h : (data == .name n) = true) :
    ∃ n', data = .name n' ∧ (n' == n) = true := by
  cases data with
  | name n' => exact ⟨n', rfl, h⟩
  | _ => exact absurd (show false = true from h) (by simp)

/-! ## The plain form -/

/-- The octets of a list of character strings. -/
def stringsWire (v : List Bytes) : Bytes := v.flatMap fun s => UInt8.ofNat s.length :: s

/-- The octets of a list of options. -/
def optionsWire (v : List (UInt16 × Bytes)) : Bytes :=
  v.flatMap fun o => toBe 2 o.1.toNat ++ (toBe 2 o.2.length ++ o.2)

/-- The uncompressed octets of record data. -/
def dataWire : Rdata → Bytes
  | .empty => []
  | .a x => x.1
  | .aaaa x => x.1
  | .name n => n.wire
  | .srv priority weight port target =>
    toBe 2 priority.toNat ++ toBe 2 weight.toNat ++ toBe 2 port.toNat ++ target.wire
  | .preference preference name => toBe 2 preference.toNat ++ name.wire
  | .twoNames first second => first.wire ++ second.wire
  | .px preference map822 mapx400 => toBe 2 preference.toNat ++ map822.wire ++ mapx400.wire
  | .txt v => stringsWire v
  | .soa mname rname serial refresh retry expire minimum =>
    mname.wire ++ rname.wire ++ toBe 4 serial.toNat ++ toBe 4 refresh.toNat ++ toBe 4 retry.toNat ++
      toBe 4 expire.toNat ++ toBe 4 minimum.toNat
  | .key flags protocol algorithm key => toBe 2 flags.toNat ++ [protocol, algorithm] ++ key
  | .sig covered algorithm labels originalTtl expiration inception keyTag signer signature =>
    toBe 2 covered.toNat ++ [algorithm, labels] ++ toBe 4 originalTtl.toNat ++
      toBe 4 expiration.toNat ++ toBe 4 inception.toNat ++ toBe 2 keyTag.toNat ++ signer.wire ++
      signature
  | .opt v => optionsWire v
  | .nsec next bitmap => next.wire ++ bitmap
  | .svcb priority target params => toBe 2 priority.toNat ++ target.wire ++ optionsWire params
  | .bytes v => v
  | .opaque_ v => v

/-- The names of record data, with the octets around them. The signer of a SIG and the target of a
SVCB are never compressed. -/
def Rdata.pieces (compress : Bool) : Rdata → List Piece
  | .name n => [.name compress n]
  | .srv _ _ _ target => [.octets 6, .name compress target]
  | .preference _ n => [.octets 2, .name compress n]
  | .twoNames first second => [.name compress first, .name compress second]
  | .px _ map822 mapx400 => [.octets 2, .name compress map822, .name compress mapx400]
  | .soa mname rname _ _ _ _ _ => [.name compress mname, .name compress rname, .octets 20]
  | .sig _ _ _ _ _ _ _ signer signature =>
    [.octets 18, .name false signer, .octets signature.length]
  | .nsec next bitmap => [.name compress next, .octets bitmap.length]
  | .svcb _ target params => [.octets 2, .name false target, .octets (optionsWire params).length]
  | data => [.octets (dataWire data).length]

/-- The pieces of record data make up its plain form. -/
theorem plainLength_pieces (compress : Bool) (data : Rdata) :
    plainLength (data.pieces compress) = (dataWire data).length := by
  cases data
  all_goals
    simp only [Rdata.pieces, plainLength, dataWire, List.length_append, List.length_cons,
      List.length_nil, length_toBe]
  all_goals omega

/-- Without compression no piece of the data refers back to another name. -/
theorem Rdata.pieces_plain (data : Rdata) (n : Name) : .name true n ∉ data.pieces false := by
  cases data <;> simp [Rdata.pieces]

/-- Strings that are short enough are written one after the other, each behind its length. -/
theorem writeStrings_eq {v : List Bytes} (h : ∀ s ∈ v, s.length ≤ 255) :
    writeStrings v = some (stringsWire v) := by
  induction v with
  | nil => rfl
  | cons s v ih =>
    have hs := h s List.mem_cons_self
    simp only [writeStrings, ih fun x hx => h x (List.mem_cons_of_mem _ hx)]
    rw [if_neg (by omega)]
    rfl

/-- Options whose values are short enough are written one after the other, each behind its code and
length. -/
theorem writeOptions_eq {v : List (UInt16 × Bytes)} (h : ∀ o ∈ v, o.2.length ≤ 65535) :
    writeOptions v = some (optionsWire v) := by
  induction v with
  | nil => rfl
  | cons o v ih =>
    have ho := h o List.mem_cons_self
    simp only [writeOptions, ih fun x hx => h x (List.mem_cons_of_mem _ hx)]
    rw [if_neg (by unfold maxWire; omega)]
    simp [optionsWire]

/-- What is written of character strings is their plain form. -/
theorem writeStrings_eq_wire : ∀ {v : List Bytes} {out : Bytes}, writeStrings v = some out →
    out = stringsWire v
  | [], out, h => (Option.some.inj h).symm
  | s :: v, out, h => by
    simp only [writeStrings, Option.bind_eq_bind, Option.bind_none, Option.ite_none_left_eq_some,
      Option.bind_eq_some_iff, Option.some.injEq] at h
    obtain ⟨-, rest, hrest, rfl⟩ := h
    rw [writeStrings_eq_wire hrest]
    rfl

/-- What is written of options is their plain form. -/
theorem writeOptions_eq_wire :
    ∀ {v : List (UInt16 × Bytes)} {out : Bytes}, writeOptions v = some out →
    out = optionsWire v
  | [], out, h => (Option.some.inj h).symm
  | (code, data) :: v, out, h => by
    simp only [writeOptions, Option.bind_eq_bind, Option.bind_none, Option.ite_none_left_eq_some,
      Option.bind_eq_some_iff, Option.some.injEq] at h
    obtain ⟨-, rest, hrest, rfl⟩ := h
    rw [writeOptions_eq_wire hrest]
    simp [optionsWire]

/-- Without compression, data is written in its plain form, of whatever shape it is. One case for
each form: names are written label by label then, and the dictionary stays. -/
theorem writeRdata_eq_plain {d d' : Dictionary} {len : Nat} {data : Rdata} {out : Bytes}
    (h : writeRdata false d len data = some (out, d')) : out = dataWire data ∧ d' = d := by
  cases data
  case opaque_ => exact absurd h (by simp [writeRdata])
  case txt v =>
    obtain ⟨s, hs, he⟩ := Option.map_eq_some_iff.1 h
    obtain ⟨rfl, rfl⟩ := Prod.mk.inj he
    exact ⟨writeStrings_eq_wire hs, rfl⟩
  case opt v =>
    obtain ⟨s, hs, he⟩ := Option.map_eq_some_iff.1 h
    obtain ⟨rfl, rfl⟩ := Prod.mk.inj he
    exact ⟨writeOptions_eq_wire hs, rfl⟩
  case svcb priority target params =>
    simp only [writeRdata, Option.bind_eq_bind, Option.bind_eq_some_iff, Option.some.injEq,
      Prod.mk.injEq] at h
    obtain ⟨s, hs, rfl, rfl⟩ := h
    rw [writeOptions_eq_wire hs]
    exact ⟨rfl, rfl⟩
  all_goals
    simp only [writeRdata, writeName, Bool.false_eq_true, if_false, Option.bind_eq_bind,
      Option.bind_some, Option.some.injEq, Prod.mk.injEq] at h
    exact ⟨h.1.symm, h.2.symm⟩

/-- Data that is written in one place without compression is so in every other place. One case for
each form of data: only names look at the dictionary, and without compression they do not. -/
theorem writeRdata_anywhere {d d' : Dictionary} {len : Nat} {data : Rdata} {out : Bytes}
    (h : writeRdata false d len data = some (out, d')) (d₁ : Dictionary) (len₁ : Nat) :
    writeRdata false d₁ len₁ data = some (dataWire data, d₁) := by
  obtain ⟨rfl, rfl⟩ := writeRdata_eq_plain h
  cases data
  case opaque_ => exact absurd h (by simp [writeRdata])
  case txt v =>
    obtain ⟨s, hs, he⟩ := Option.map_eq_some_iff.1 h
    obtain ⟨rfl, -⟩ := Prod.mk.inj he
    simp only [writeRdata, hs, Option.map_some]
  case opt v =>
    obtain ⟨s, hs, he⟩ := Option.map_eq_some_iff.1 h
    obtain ⟨rfl, -⟩ := Prod.mk.inj he
    simp only [writeRdata, hs, Option.map_some]
  case svcb priority target params =>
    simp only [writeRdata, Option.bind_eq_bind, Option.bind_eq_some_iff, Option.some.injEq,
      Prod.mk.injEq] at h
    obtain ⟨s, hs, -, -⟩ := h
    simp only [writeRdata, hs, writeOptions_eq_wire hs, Option.bind_eq_bind, Option.bind_some,
      dataWire]
  all_goals rfl

/-- Data that holds no name to be compressed is written as without compression. One case for each
form of data; those with such a name contradict the hypothesis. -/
theorem writeRdata_verbatim {compress : Bool} {data : Rdata}
    (h : ∀ n, .name true n ∉ data.pieces compress) (d : Dictionary) (len : Nat) :
    writeRdata compress d len data = writeRdata false d len data := by
  cases compress with
  | false => rfl
  | true =>
    cases data
    case name n => exact absurd List.mem_cons_self (h n)
    case srv priority weight port target =>
      exact absurd (List.mem_cons_of_mem _ List.mem_cons_self) (h target)
    case preference preference n =>
      exact absurd (List.mem_cons_of_mem _ List.mem_cons_self) (h n)
    case twoNames first second => exact absurd List.mem_cons_self (h first)
    case px preference map822 mapx400 =>
      exact absurd (List.mem_cons_of_mem _ List.mem_cons_self) (h map822)
    case soa mname rname serial refresh retry expire minimum =>
      exact absurd List.mem_cons_self (h mname)
    case nsec next bitmap => exact absurd List.mem_cons_self (h next)
    all_goals rfl

/-- Without compression, data that fits its type is written in its plain form. -/
theorem writeRdata_plain {kind : UInt16} {data : Rdata} (h : Fits kind data)
    (ho : data.isOpaque = false) (d : Dictionary) (len : Nat) :
    writeRdata false d len data = some (dataWire data, d) := by
  unfold Fits at h
  split at h
  case h_5 => simp [writeRdata, writeStrings_eq h.2, dataWire]
  case h_12 => simp [writeRdata, writeOptions_eq h, dataWire]
  case h_14 => simp [writeRdata, writeOptions_eq h.1, dataWire]
  case h_17 => exact absurd ho (by simp [Rdata.isOpaque])
  case h_18 => exact h.elim
  all_goals simp [writeRdata, writeName, dataWire]

/-! ## Reading the plain form -/

/-- The length of a short string fits the octet it is written into. -/
theorem toNat_length_octet {x : Bytes} (h : x.length ≤ 255) :
    (UInt8.ofNat x.length).toNat = x.length := by
  rw [UInt8.toNat_ofNat']
  omega

/-- Strings are read back in order from where they were written; the induction is on the strings,
each of which takes at least one round of the fuel. -/
theorem txtLoop_span {b : Bytes} {stop : Nat} : ∀ {v : List Bytes} (fuel : Nat) {pos : Nat},
    (∀ s ∈ v, s.length ≤ 255) → Span b pos stop (stringsWire v) → v.length ≤ fuel →
    txtLoop b stop fuel pos = some (v, stop)
  | [], fuel, pos, _, hs, _ => by
    have := hs.stop_eq
    simp only [stringsWire, List.flatMap_nil, List.length_nil, Nat.add_zero] at this
    subst this
    cases fuel <;> simp [txtLoop]
  | s :: v, fuel + 1, pos, hv, hs, hf => by
    have hlen := hv s List.mem_cons_self
    have hstop := hs.stop_eq
    simp only [stringsWire, List.flatMap_cons, List.cons_append] at hs hstop
    have hbyte := takeByte_span hs
    have hrest := Span.right (x := [UInt8.ofNat s.length]) hs
    have htake := take_span hrest
    have ih := txtLoop_span fuel (fun x hx => hv x (List.mem_cons_of_mem _ hx)) hrest.right
      (Nat.le_of_succ_le_succ hf)
    have hn := toNat_length_octet hlen
    simp only [List.length_cons] at hstop
    simp only [txtLoop]
    rw [if_pos (by omega), hbyte]
    simp only [Option.bind_eq_bind, Option.bind_some, hn]
    rw [show pos + 1 = pos + [UInt8.ofNat s.length].length from rfl, htake]
    simp only [Option.bind_some, ih]

/-- Options are read back in order from where they were written, also by the reader that requires
ascending codes. -/
theorem optionsLoop_span {b : Bytes} {stop : Nat} (ordered : Bool) :
    ∀ {v : List (UInt16 × Bytes)} (fuel : Nat) {pos : Nat} (prev : Option UInt16),
    (∀ o ∈ v, o.2.length ≤ 65535) → (ordered = true → Ascending prev v) →
    Span b pos stop (optionsWire v) → v.length ≤ fuel →
    optionsLoop b stop ordered fuel pos prev = some (v, stop)
  | [], fuel, pos, prev, _, _, hs, _ => by
    have := hs.stop_eq
    simp only [optionsWire, List.flatMap_nil, List.length_nil, Nat.add_zero] at this
    subst this
    cases fuel <;> simp [optionsLoop]
  | (key, data) :: v, fuel + 1, pos, prev, hv, hord, hs, hf => by
    have hlen : data.length ≤ 65535 := hv _ List.mem_cons_self
    have hstop := hs.stop_eq
    simp only [optionsWire, List.flatMap_cons, List.append_assoc] at hs hstop
    have hkey := u16_span hs
    have hs₁ := hs.right
    rw [length_toBe] at hs₁
    have hn : (UInt16.ofNat data.length).toNat = data.length := by
      rw [UInt16.toNat_ofNat']
      omega
    have hlenread := u16_span (v := UInt16.ofNat data.length) (by rw [hn]; exact hs₁)
    have hs₂ := hs₁.right
    rw [length_toBe] at hs₂
    have htake := take_span hs₂
    have ih := optionsLoop_span ordered fuel (some key)
      (fun x hx => hv x (List.mem_cons_of_mem _ hx)) (fun ho => (hord ho).2) hs₂.right
      (Nat.le_of_succ_le_succ hf)
    simp only [List.length_append, length_toBe] at hstop
    simp only [optionsLoop]
    rw [if_pos (by omega), hkey]
    simp only [Option.bind_eq_bind, Option.bind_some, hlenread, hn, htake, ih]
    rw [if_neg]
    rintro ⟨ho, hp⟩
    rw [(hord ho).1] at hp
    exact absurd hp (by simp)

/-- The last octets of a span. -/
theorem take_span_all {b x : Bytes} {pos stop : Nat} (h : Span b pos stop x) :
    take b pos stop (stop - pos) = some (x, stop) := by
  have hs := h.stop_eq
  have := take_span (x := x) (y := []) (by simpa using h)
  rw [hs, Nat.add_sub_cancel_left]
  rwa [hs] at this

/-- Every string takes at least one octet, so that the octets are fuel enough. -/
theorem length_stringsWire_ge (v : List Bytes) : v.length ≤ (stringsWire v).length := by
  induction v with
  | nil => simp
  | cons s v ih =>
    simp only [stringsWire, List.flatMap_cons, List.length_append, List.length_cons] at ih ⊢
    omega

/-- Every option takes at least one octet, so that the octets are fuel enough. -/
theorem length_optionsWire_ge (v : List (UInt16 × Bytes)) : v.length ≤ (optionsWire v).length := by
  induction v with
  | nil => simp
  | cons s v ih =>
    simp only [optionsWire, List.flatMap_cons, List.length_append, List.length_cons,
      length_toBe] at ih ⊢
    omega

/-- A reader that has nothing more to read. -/
theorem Track.done {must owed : Prop} {α : Type} {b : Bytes} {data : α}
    {ps : List Piece} {p : Parser} {d : Dictionary} {pos pos' stop : Nat}
    (ht : Track must owed b ps p d pos) (hp : pos' = stop) (he : pos = stop) :
    Yields must (some (data, pos', p)) fun r =>
      r.1 = data ∧ r.2.1 = stop ∧ Track must owed b ps r.2.2 d r.2.1 := by
  subst hp he
  exact ⟨rfl, rfl, ht⟩

/-- NSEC3 data is read back as its octets. The fields with a length octet in front are cut off one
after the other, and only their lengths are checked; type 51 (NSEC3PARAM) ends after the salt. -/
theorem Track.nsec3 {must owed : Prop} {b x : Bytes} {kind : UInt16} {ps : List Piece}
    {d : Dictionary} {pos stop : Nat} {p : Parser} (ht : Track must owed b ps p d stop)
    (z mdns : Bool) (hx : Nsec3Data kind x) (hs : Span b pos stop x) (hform : form kind = .nsec3) :
    Yields must (p.rdata b kind pos stop z mdns) fun r =>
      r.1 = .bytes x ∧ r.2.1 = stop ∧ Track must owed b ps r.2.2 d r.2.1 := by
  have hall := hs.octets
  have hstop := hs.stop_eq
  obtain ⟨head, salt, rest, rfl, hh, hsalt, hrest⟩ := hx
  have ht₀ := take_span hs
  rw [hh] at ht₀
  have hs₁ := hs.right
  rw [hh] at hs₁
  have hs₂ := hs₁.right_byte
  have hs₃ := hs₂.right
  unfold Parser.rdata
  simp only [hform, ht₀, takeByte_span hs₁, toNat_length_octet hsalt, take_span hs₂,
    Option.bind_eq_bind, Option.bind_some]
  by_cases hk : kind = 50
  · rw [if_pos hk] at hrest ⊢
    obtain ⟨hash, bitmap, rfl, hne, hlen, hvalid⟩ := hrest
    have hs₄ := hs₃.right_byte
    have hpos : UInt8.ofNat hash.length ≠ 0 := by
      intro h
      have := toNat_length_octet hlen
      rw [h] at this
      exact hne (List.eq_nil_of_length_eq_zero this.symm)
    simp only [takeByte_span hs₃, Option.bind_some, hpos, if_false, toNat_length_octet hlen,
      take_span hs₄, take_span_all hs₄.right, hvalid, Bool.not_true, Bool.false_eq_true]
    rw [show stop - pos = _ by rw [hstop, Nat.add_sub_cancel_left], hall]
    exact ht.done rfl rfl
  · rw [if_neg hk] at hrest ⊢
    subst hrest
    have : pos + 4 + 1 + salt.length = stop := by
      simp at hstop
      omega
    rw [this, show stop - pos = _ by rw [hstop, Nat.add_sub_cancel_left], hall]
    exact ht.done rfl rfl

/-- The parser reads back the record data that was written. One case for each form of data: the
octets of each field stand at a known place of the buffer (`Span`), and the names are followed by
`Track.name`, in the order in which the writer has put them into the dictionary. -/
theorem Track.rdata {must owed : Prop} {b out : Bytes} {kind : UInt16} {data : Rdata}
    {compress : Bool} {ps : List Piece} {d d' : Dictionary} {pos stop : Nat} {p : Parser}
    {z mdns : Bool} (ht : Track must owed b (data.pieces compress ++ ps) p d pos)
    (hz : compress = true → z = true ∧ mdns = true) (hfit : Fits kind data)
    (hw : writeRdata compress d pos data = some (out, d')) (hs : Span b pos stop out) :
    Yields must (p.rdata b kind pos stop z mdns) fun r =>
      r.1 = data ∧ r.2.1 = stop ∧ Track must owed b ps r.2.2 d' r.2.1 := by
  have hstop := hs.stop_eq
  unfold Fits at hfit
  split at hfit
  all_goals try exact hfit.elim
  all_goals
    rename_i hform
    unfold Parser.rdata
    simp only [hform]
    simp only [writeRdata, Option.bind_eq_bind, Option.bind_eq_some_iff, Option.some.injEq,
      Option.map_eq_some_iff, Prod.mk.injEq, Prod.exists] at hw
    simp only [Rdata.pieces, List.cons_append, List.nil_append] at ht
  case h_1 x =>
    obtain ⟨rfl, rfl⟩ := hw
    have hread := take_span_all hs
    rw [x.2] at hstop
    rw [show stop - pos = 4 by omega] at hread ⊢
    have ht := ht.octets
    simp only [dataWire, x.2, ← hstop] at ht
    simp [hread, x.2, ht]
  case h_2 x =>
    obtain ⟨rfl, rfl⟩ := hw
    have hread := take_span_all hs
    rw [x.2] at hstop
    rw [show stop - pos = 16 by omega] at hread ⊢
    have ht := ht.octets
    simp only [dataWire, x.2, ← hstop] at ht
    simp [hread, x.2, ht]
  case h_3 n =>
    have hz' : compress = true → (kind != 39 || mdns) = true := fun h => by simp [(hz h).2]
    refine (ht.name hz' hw (y := []) (by simpa using hs)).bind fun r hr => ?_
    rw [hstop]
    exact ⟨congrArg _ hr.1, hr.2⟩
  case h_4 priority weight port target =>
    obtain ⟨n, d₁, hn, rfl, rfl⟩ := hw
    simp only [List.length_append, length_toBe] at hn hstop
    simp only [List.append_assoc] at hs
    have hs₁ := hs.right_be
    have hs₂ := hs₁.right_be
    have hs₃ := hs₂.right_be
    simp only [u16_span hs, u16_span hs₁, u16_span hs₂, Option.bind_eq_bind, Option.bind_some]
    refine (ht.octets.name (fun h => (hz h).1) hn (y := []) (by simpa using hs₃)).bind fun r hr =>
      ?_
    exact ⟨by rw [hr.1], by rw [hr.2.1]; omega, hr.2.2⟩
  case h_5 v =>
    obtain ⟨hne, hv⟩ := hfit
    obtain ⟨s, hs', rfl, rfl⟩ := hw
    obtain rfl := Option.some.inj ((writeStrings_eq hv).symm.trans hs')
    have hl := length_stringsWire_ge v
    have hread := txtLoop_span (stop - pos) hv hs (by omega)
    simp only [hread, Option.bind_eq_bind, Option.bind_some]
    rw [if_neg (by simpa using hne)]
    exact ht.octets.done rfl hstop.symm
  case h_6 mname rname serial refresh retry expire minimum =>
    obtain ⟨n₁, d₁, hn₁, n₂, d₂, hn₂, rfl, rfl⟩ := hw
    simp only [List.length_append, length_toBe] at hstop
    simp only [List.append_assoc] at hs
    have hs₂ := hs.right
    refine (ht.name (fun _ => rfl) hn₁ hs).bind fun r₁ hr₁ => ?_
    obtain ⟨rfl, hp, ht₁⟩ := hr₁
    rw [hp] at ht₁ ⊢
    refine (ht₁.name (fun _ => rfl) hn₂ hs₂).bind fun r₂ hr₂ => ?_
    obtain ⟨rfl, hp, ht₂⟩ := hr₂
    rw [hp] at ht₂ ⊢
    have hr₀ := hs₂.right
    have hr₁ := hr₀.right_be
    have hr₂ := hr₁.right_be
    have hr₃ := hr₂.right_be
    have hr₄ := hr₃.right_be
    simp only [u32_span hr₀, u32_span hr₁, u32_span hr₂, u32_span hr₃, Option.bind_eq_bind,
      Option.bind_some]
    rw [u32_span (x := []) (by simpa using hr₄)]
    exact ht₂.octets.done (by omega) (by omega)
  case h_7 preference name =>
    obtain ⟨n, d₁, hn, rfl, rfl⟩ := hw
    simp only [List.length_append, length_toBe] at hn hstop
    have hs₁ := hs.right_be
    have hz' : compress = true → (kind != 36 || mdns) = true := fun h => by simp [(hz h).2]
    simp only [u16_span hs, Option.bind_eq_bind, Option.bind_some]
    refine (ht.octets.name hz' hn (y := []) (by simpa using hs₁)).bind fun r hr => ?_
    exact ⟨by rw [hr.1], by rw [hr.2.1]; omega, hr.2.2⟩
  case h_8 first second =>
    obtain ⟨n₁, d₁, hn₁, n₂, d₂, hn₂, rfl, rfl⟩ := hw
    simp only [List.length_append] at hstop
    have hs₂ : Span b (pos + n₁.length) stop (n₂ ++ []) := by simpa using hs.right
    refine (ht.name (fun _ => rfl) hn₁ hs).bind fun r₁ hr₁ => ?_
    obtain ⟨rfl, hp, ht₁⟩ := hr₁
    rw [hp] at ht₁ ⊢
    refine (ht₁.name (fun _ => rfl) hn₂ hs₂).bind fun r₂ hr₂ => ?_
    exact ⟨by rw [hr₂.1], by rw [hr₂.2.1]; omega, hr₂.2.2⟩
  case h_9 preference map822 mapx400 =>
    obtain ⟨n₁, d₁, hn₁, n₂, d₂, hn₂, rfl, rfl⟩ := hw
    simp only [List.length_append, length_toBe] at hstop hn₁ hn₂
    simp only [List.append_assoc] at hs
    have hs₁ := hs.right_be
    have hs₂ : Span b (pos + 2 + n₁.length) stop (n₂ ++ []) := by simpa using hs₁.right
    simp only [u16_span hs, Option.bind_eq_bind, Option.bind_some]
    refine (ht.octets.name (fun _ => rfl) hn₁ hs₁).bind fun r₁ hr₁ => ?_
    obtain ⟨rfl, hp, ht₁⟩ := hr₁
    rw [hp] at ht₁ ⊢
    refine (ht₁.name (fun _ => rfl) hn₂ hs₂).bind fun r₂ hr₂ => ?_
    exact ⟨by rw [hr₂.1], by rw [hr₂.2.1]; omega, hr₂.2.2⟩
  case h_10 flags protocol algorithm key =>
    obtain ⟨rfl, rfl⟩ := hw
    have ht := ht.octets
    simp only [dataWire, ← hstop] at ht
    simp only [List.append_assoc, List.cons_append, List.nil_append] at hs
    have hs₁ := hs.right_be
    have hs₂ := hs₁.right_byte
    have hs₃ := hs₂.right_byte
    simp only [u16_span hs, takeByte_span hs₁, takeByte_span hs₂, take_span_all hs₃,
      Option.bind_eq_bind, Option.bind_some]
    exact ht.done rfl rfl
  case h_11 covered algorithm labels originalTtl expiration inception keyTag signer signature =>
    obtain ⟨rfl, rfl⟩ := hw
    simp only [List.length_append, length_toBe, List.length_cons, List.length_nil] at hstop
    simp only [List.append_assoc, List.cons_append, List.nil_append] at hs
    have hs₁ := hs.right_be
    have hs₂ := hs₁.right_byte
    have hs₃ := hs₂.right_byte
    have hs₄ := hs₃.right_be
    have hs₅ := hs₄.right_be
    have hs₆ := hs₅.right_be
    have hs₇ := hs₆.right_be
    simp only [u16_span hs, takeByte_span hs₁, takeByte_span hs₂, u32_span hs₃, u32_span hs₄,
      u32_span hs₅, u16_span hs₆, Option.bind_eq_bind, Option.bind_some]
    refine (ht.octets.name (z := false) (fun h => h) rfl hs₇).bind fun r hr => ?_
    obtain ⟨rfl, hp, ht₁⟩ := hr
    rw [hp] at ht₁ ⊢
    simp only [take_span_all hs₇.right, Option.bind_some]
    rw [if_neg (by simpa using hfit)]
    exact ht₁.octets.done rfl (by omega)
  case h_12 v =>
    obtain ⟨s, hs', rfl, rfl⟩ := hw
    obtain rfl := Option.some.inj ((writeOptions_eq hfit).symm.trans hs')
    have hl := length_optionsWire_ge v
    have hread := optionsLoop_span false (stop - pos) none hfit
      (by simp) hs (by omega)
    simp only [hread, Option.bind_eq_bind, Option.bind_some]
    exact ht.octets.done rfl hstop.symm
  case h_13 next bitmap =>
    obtain ⟨n, d₁, hn, rfl, rfl⟩ := hw
    simp only [List.length_append] at hstop
    refine (ht.name (fun h => (hz h).2) hn hs).bind fun r hr => ?_
    obtain ⟨rfl, hp, ht₁⟩ := hr
    rw [hp] at ht₁ ⊢
    simp only [take_span_all hs.right, Option.bind_eq_bind, Option.bind_some, hfit, Bool.not_true,
      Bool.false_eq_true, if_false]
    exact ht₁.octets.done rfl (by omega)
  case h_14 priority target params =>
    obtain ⟨hv, hasc, hvalid⟩ := hfit
    obtain ⟨s, hs', rfl, rfl⟩ := hw
    obtain rfl := Option.some.inj ((writeOptions_eq hv).symm.trans hs')
    have hl := length_optionsWire_ge params
    simp only [List.length_append, length_toBe] at hstop
    simp only [List.append_assoc] at hs
    have hs₁ := hs.right_be
    simp only [u16_span hs, Option.bind_eq_bind, Option.bind_some]
    refine (ht.octets.name (z := false) (fun h => h) rfl hs₁).bind fun r hr => ?_
    obtain ⟨rfl, hp, ht₁⟩ := hr
    rw [hp] at ht₁ ⊢
    have hread := optionsLoop_span true (stop - (pos + 2 + r.1.wire.length)) none hv (fun _ => hasc)
      hs₁.right (by omega)
    simp only [hread, Option.bind_some]
    rw [if_neg (by rintro ⟨h0, h⟩; rw [hvalid h0] at h; exact absurd h (by simp))]
    exact ht₁.octets.done rfl (by omega)
  case h_15 x =>
    obtain ⟨h4, hsize⟩ := hfit
    obtain ⟨rfl, rfl⟩ := hw
    have hread := take_span_all hs
    rw [show stop - pos = x.length by omega] at hread ⊢
    simp only [hread, Option.bind_eq_bind, Option.bind_some]
    rw [if_neg (by omega), if_neg (by rw [hsize]; simp)]
    exact ht.octets.done rfl hstop.symm
  case h_16 x =>
    obtain ⟨rfl, rfl⟩ := hw
    have ht := ht.octets
    simp only [dataWire, ← hstop] at ht
    have := ht.nsec3 z mdns hfit hs hform
    unfold Parser.rdata at this
    simpa only [hform, Option.bind_eq_bind] using this
  case h_17 x => exact absurd hw (by simp)

/-- Data of a type that the program does not know is read back as its octets. -/
theorem Track.unknown {must owed : Prop} {b x : Bytes} {kind : UInt16} {ps : List Piece}
    {d : Dictionary} {pos stop : Nat} {p : Parser}
    (ht : Track must owed b (.octets x.length :: ps) p d pos) (z mdns : Bool)
    (hs : Span b pos stop x) (hform : form kind = .unknown) :
    Yields must (p.rdata b kind pos stop z mdns) fun r =>
      r.1 = .opaque_ x ∧ r.2.1 = stop ∧ Track must owed b ps r.2.2 d r.2.1 := by
  unfold Parser.rdata
  simp only [hform, take_span_all hs, Option.bind_eq_bind, Option.bind_some]
  exact ht.octets.done rfl hs.stop_eq.symm

/-! ## What the parser returns -/

/-- The strings that are read are short enough to be written again: each has the length that its own
octet gives. By recursion on the fuel. -/
theorem txtLoop_length {b : Bytes} {stop : Nat} : ∀ {fuel pos : Nat} {v : List Bytes} {pos' : Nat},
    txtLoop b stop fuel pos = some (v, pos') → ∀ s ∈ v, s.length ≤ 255
  | 0, pos, v, pos', h => by
    unfold txtLoop at h
    split at h
    · exact absurd h (by simp)
    · simp only [Option.some.injEq, Prod.mk.injEq] at h
      simp [← h.1]
  | fuel + 1, pos, v, pos', h => by
    unfold txtLoop at h
    split at h
    · simp only [Option.bind_eq_bind, Option.bind_eq_some_iff, Option.some.injEq, Prod.mk.injEq,
        Prod.exists] at h
      obtain ⟨n, p₁, -, s, p₂, hs, v', p₃, hv, rfl, rfl⟩ := h
      intro x hx
      rcases List.mem_cons.1 hx with rfl | hx
      · have := (take_eq_some hs).2.1
        have := n.toNat_lt
        omega
      · exact txtLoop_length hv x hx
    · simp only [Option.some.injEq, Prod.mk.injEq] at h
      simp [← h.1]

/-- The options that are read are short enough to be written again, and in the order that the reader
requires. -/
theorem optionsLoop_fits {b : Bytes} {stop : Nat} {ordered : Bool} :
    ∀ {fuel pos : Nat} {prev : Option UInt16} {v : List (UInt16 × Bytes)} {pos' : Nat},
    optionsLoop b stop ordered fuel pos prev = some (v, pos') →
    (∀ o ∈ v, o.2.length ≤ 65535) ∧ (ordered = true → Ascending prev v) ∧ (v = [] → pos' = pos)
  | 0, pos, prev, v, pos', h => by
    unfold optionsLoop at h
    split at h
    · exact absurd h (by simp)
    · simp only [Option.some.injEq, Prod.mk.injEq] at h
      obtain ⟨rfl, rfl⟩ := h
      simp [Ascending]
  | fuel + 1, pos, prev, v, pos', h => by
    unfold optionsLoop at h
    split at h
    · simp only [Option.bind_eq_bind, Option.bind_eq_some_iff, Prod.exists] at h
      obtain ⟨key, p₁, -, n, p₂, -, h⟩ := h
      split at h
      · exact absurd h (by simp)
      · next hord =>
        simp only [Option.bind_eq_some_iff, Option.some.injEq, Prod.mk.injEq, Prod.exists] at h
        obtain ⟨data, p₃, hdata, v', p₄, hv, rfl, rfl⟩ := h
        obtain ⟨hlen, hasc, -⟩ := optionsLoop_fits hv
        refine ⟨fun o ho => ?_, fun ho => ⟨?_, hasc ho⟩, by simp⟩
        · rcases List.mem_cons.1 ho with rfl | ho
          · have := (take_eq_some hdata).2.1
            have := n.toNat_lt
            show data.length ≤ 65535
            omega
          · exact hlen o ho
        · simpa [ho] using hord
    · simp only [Option.some.injEq, Prod.mk.injEq] at h
      obtain ⟨rfl, rfl⟩ := h
      simp [Ascending]

/-- The octets that are taken are those of the buffer between the two positions. -/
theorem take_isSpan {b x : Bytes} {pos stop n pos' : Nat} (h : take b pos stop n = some (x, pos')) :
    Span b pos pos' x := by
  obtain ⟨rfl, hlen, rfl, -, hb⟩ := take_eq_some h
  have := (Span.ofDrop (show pos ≤ b.length by omega))
  rw [← List.take_append_drop n (b.drop pos)] at this
  have := this.left
  rwa [hlen] at this

/-- The octet that is taken is the one of the buffer at that position. -/
theorem takeByte_isSpan {b : Bytes} {c : UInt8} {pos stop pos' : Nat}
    (h : takeByte b pos stop = some (c, pos')) : Span b pos pos' [c] := by
  unfold takeByte at h
  obtain ⟨⟨x, p⟩, hx, he⟩ := Option.map_eq_some_iff.1 h
  simp only [Prod.mk.injEq] at he
  obtain ⟨rfl, rfl⟩ := he
  obtain ⟨c, rfl⟩ := List.length_eq_one_iff.1 (take_eq_some hx).2.1
  exact take_isSpan hx

/-- The data that the parser returns fits its record type. One case for each form: the parser builds
the data from the fields that it has read, so that only lengths and what it checks itself are left
to be shown. -/
theorem rdata_fits {b : Bytes} {kind : UInt16} {pos stop pos' : Nat} {z mdns : Bool} {p p' : Parser}
    {data : Rdata} (h : p.rdata b kind pos stop z mdns = some (data, pos', p')) :
    Fits kind data ∧ (data = .opt [] → pos' = pos) := by
  unfold Parser.rdata at h
  unfold Fits
  cases hform : form kind <;>
    simp only [hform, Option.bind_eq_bind, Option.bind_eq_some_iff, Option.bind_none,
      Option.ite_none_left_eq_some, Option.dite_none_right_eq_some, Option.some.injEq,
      Prod.mk.injEq, Prod.exists] at h
  case a =>
    obtain ⟨-, x, _, -, hx, rfl, -⟩ := h
    exact ⟨trivial, by simp⟩
  case aaaa =>
    obtain ⟨-, x, _, -, hx, rfl, -⟩ := h
    exact ⟨trivial, by simp⟩
  case name =>
    obtain ⟨n, _, _, -, rfl, -⟩ := h
    exact ⟨trivial, by simp⟩
  case srv =>
    obtain ⟨_, _, -, _, _, -, _, _, -, _, _, _, -, rfl, -⟩ := h
    exact ⟨trivial, by simp⟩
  case txt =>
    obtain ⟨v, _, hv, hne, rfl, -⟩ := h
    exact ⟨⟨by simpa using hne, txtLoop_length hv⟩, by simp⟩
  case soa =>
    obtain ⟨_, _, _, -, _, _, _, -, _, _, -, _, _, -, _, _, -, _, _, -, _, _, -, rfl, -⟩ := h
    exact ⟨trivial, by simp⟩
  case preference =>
    obtain ⟨_, _, -, _, _, _, -, rfl, -⟩ := h
    exact ⟨trivial, by simp⟩
  case twoNames =>
    obtain ⟨_, _, _, -, _, _, _, -, rfl, -⟩ := h
    exact ⟨trivial, by simp⟩
  case px =>
    obtain ⟨_, _, -, _, _, _, -, _, _, _, -, rfl, -⟩ := h
    exact ⟨trivial, by simp⟩
  case key =>
    obtain ⟨_, _, -, _, _, -, _, _, -, _, _, -, rfl, -⟩ := h
    exact ⟨trivial, by simp⟩
  case sig =>
    obtain ⟨_, _, -, _, _, -, _, _, -, _, _, -, _, _, -, _, _, -, _, _, -, _, _, _, -, _, _, -, hne,
      rfl, -⟩ := h
    exact ⟨by simpa using hne, by simp⟩
  case opt =>
    obtain ⟨v, _, hv, rfl, rfl, -⟩ := h
    obtain ⟨hlen, -, hnil⟩ := optionsLoop_fits hv
    exact ⟨hlen, fun he => hnil (by simpa using he)⟩
  case nsec =>
    obtain ⟨_, _, _, -, bitmap, _, -, hvalid, rfl, -⟩ := h
    exact ⟨by simpa using hvalid, by simp⟩
  case svcb =>
    obtain ⟨priority, _, -, _, _, _, -, params, _, hv, hvalid, rfl, -⟩ := h
    obtain ⟨hlen, hasc, -⟩ := optionsLoop_fits hv
    exact ⟨⟨hlen, hasc rfl, fun h0 => by simpa [h0] using hvalid⟩, by simp⟩
  case digest =>
    obtain ⟨h4, x, _, hx, hsize, rfl, -⟩ := h
    have hlen := (take_eq_some hx).2.1
    refine ⟨⟨by omega, ?_⟩, by simp⟩
    rw [← hlen] at hsize
    simpa using hsize
  case nsec3 =>
    obtain ⟨head, p₁, hhead, c, p₂, hc, salt, p₃, hsalt, h⟩ := h
    have hs := (take_isSpan hhead).append ((takeByte_isSpan hc).append (take_isSpan hsalt))
    have hhead' := (take_eq_some hhead).2.1
    have hsalt' := (take_eq_some hsalt).2.1
    have hc' : c = UInt8.ofNat salt.length := by rw [hsalt', UInt8.ofNat_toNat]
    have hle : salt.length ≤ 255 := by
      have := c.toNat_lt
      omega
    split at h
    · next hk =>
      simp only [Option.bind_eq_some_iff, Option.ite_none_left_eq_some, Option.some.injEq,
        Prod.mk.injEq, Prod.exists] at h
      obtain ⟨n, p₄, hn, hn0, hash, p₅, hhash, bitmap, p₆, hbitmap, hvalid, rfl, -⟩ := h
      have hs' := hs.append ((takeByte_isSpan hn).append ((take_isSpan hhash).append
        (take_isSpan hbitmap)))
      have hhash' := (take_eq_some hhash).2.1
      have hn' : n = UInt8.ofNat hash.length := by rw [hhash', UInt8.ofNat_toNat]
      refine ⟨⟨head, salt, UInt8.ofNat hash.length :: (hash ++ bitmap), ?_, hhead',
        hle, ?_⟩, by simp⟩
      · rw [hs'.sub_eq, hs'.octets, hc', hn']
        simp
      · rw [if_pos hk]
        refine ⟨hash, bitmap, rfl, ?_, ?_, by simpa using hvalid⟩
        · rintro rfl
          exact hn0 hn'
        · have := n.toNat_lt
          omega
    · next hk =>
      simp only [Option.some.injEq, Prod.mk.injEq] at h
      obtain ⟨rfl, -⟩ := h
      refine ⟨⟨head, salt, [], ?_, hhead', hle, by rw [if_neg hk]⟩, by simp⟩
      rw [hs.sub_eq, hs.octets, hc']
      simp
  case unknown =>
    obtain ⟨x, _, -, rfl, -⟩ := h
    exact ⟨trivial, by simp⟩

end SnacMachine.Dns
