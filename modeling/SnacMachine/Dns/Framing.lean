import Mathlib.Data.List.GetD
import SnacMachine.Dns.Wire
import SnacMachine.Lib.Framing

/-!
# Messages over a byte stream

`TcpFrames` of `dns/wire.rs` collects the messages of one connection: each is preceded by its length
in two octets. `inputWithLimit` first reads the headers of the buffered octets and the new ones
(`headers`), and only then takes the new ones in (`commit`). What it takes in is described by the
reference decoding `lengthPrefixed` of the whole stream, however it was cut (`Reached.inv`).
-/

namespace SnacMachine.Dns

/-! ## The connection's buffers -/

/-- A growable buffer: what it holds and the room that was reserved for it. -/
structure Vec where
  data : Bytes
  capacity : Nat
  deriving DecidableEq

namespace Vec

def empty : Vec := ⟨[], 0⟩

def withCapacity (n : Nat) : Vec := ⟨[], n⟩

/-- Room for `n` octets more. -/
def reserveExact (v : Vec) (n : Nat) : Vec :=
  { v with capacity := max v.capacity (v.data.length + n) }

def extend (v : Vec) (b : Bytes) : Vec :=
  ⟨v.data ++ b, max v.capacity (v.data.length + b.length)⟩

/-- Moves what follows the first `n` octets to the front. Reference: `copy_within(n.., 0)`. -/
def copyWithin (v : Vec) (n : Nat) : Vec :=
  { v with data := v.data.drop n ++ v.data.drop (v.data.length - n) }

def truncate (v : Vec) (n : Nat) : Vec := { v with data := v.data.take n }

end Vec

/-- The number in the first two octets. -/
def be16 (b : Bytes) : Nat := ofBe (b.take 2)

/-- Reference: `TcpFrames` (`dns/wire.rs:834`). -/
structure TcpFrames where
  max : Nat
  partial_ : Vec
  ready : List Vec
  bytes : Nat
  deriving DecidableEq

namespace TcpFrames

/-- Reference: `TcpFrames::new` (`dns/wire.rs:841`). -/
def new (max : Nat) : Except IoError TcpFrames :=
  if ¬ (12 ≤ max ∧ max ≤ maxWire) then .error wireInvalid
  else .ok ⟨max, .empty, [], 0⟩

/-- The loop over the headers of the `total` octets that `byte` returns: where it ends, and what it
charges. Reference: the first loop of `TcpFrames::input_with_limit` (`dns/wire.rs:882`). -/
def headers (max total : Nat) (byte : Nat → UInt8) (pos count allocated : Nat) :
    Option (Nat × Nat) :=
  if total - pos ≥ 2 then
    let n := ofBe [byte pos, byte (pos + 1)]
    if n < 12 ∨ n > max then none
    else if total - pos < n + 2 then some (total, allocated + (n + 2))
    else if count + 1 > 32 then none
    else headers max total byte (pos + (n + 2)) (count + 1) (allocated + (n + 2))
  else some (pos, allocated)
termination_by total - pos

/-- The header of the next frame, completed as far as the new octets go. Reference: the first half
of the second loop's body (`dns/wire.rs:906`). -/
def takeHeader (p : Vec) (b : Bytes) : Vec × Bytes :=
  let p := if p.capacity = 0 then Vec.withCapacity 2 else p
  if p.data.length < 2 then
    let n := min (2 - p.data.length) b.length
    (p.extend (b.take n), b.drop n)
  else (p, b)

/-- What is left of the loop's input and of the buffer: each turn of the loop makes it smaller. -/
def measure (p : Vec) (b : Bytes) : Nat := 2 * b.length + (if p.data = [] then 0 else 1)

/-- Taking the length takes octets of the input, unless the length is known already. It is known
when the buffer holds two octets, and then nothing changes. -/
theorem takeHeader_cases (p : Vec) {b : Bytes} (hb : b ≠ []) :
    (takeHeader p b).2.length < b.length ∨
      p.data ≠ [] ∧ (takeHeader p b).2 = b ∧ (takeHeader p b).1 = p := by
  have hb : 0 < b.length := List.length_pos_iff.2 hb
  rw [takeHeader]
  by_cases hp : (if p.capacity = 0 then Vec.withCapacity 2 else p).data.length < 2
  · left
    simp only [hp, if_true, List.length_drop]
    omega
  · right
    simp only [hp, if_false]
    by_cases hc : p.capacity = 0
    · simp [hc, Vec.withCapacity] at hp
    · simp only [hc, if_false] at hp ⊢
      exact ⟨fun h => hp (by simp [h]), trivial, trivial⟩

/-- With a frame done, what is left is less to do. -/
theorem measure_empty (p : Vec) {b : Bytes} (hb : b ≠ []) (n : Nat) :
    measure .empty ((takeHeader p b).2.drop n) < measure p b := by
  simp only [measure, Vec.empty, List.length_drop, if_true]
  cases takeHeader_cases p hb with
  | inl h => omega
  | inr h =>
    rw [if_neg h.1, h.2.1]
    omega

/-- With a frame extended but not done, what is left is less to do. The frame has taken at least one
octet of the input, which the measure counts twice. -/
theorem measure_extend (p : Vec) {b : Bytes} (hb : b ≠ []) {size : Nat}
    (hle : ¬ size < (takeHeader p b).1.data.length)
    (hr : ¬ (((takeHeader p b).1.reserveExact (size - (takeHeader p b).1.data.length)).extend
      ((takeHeader p b).2.take (min (size - (takeHeader p b).1.data.length)
        (takeHeader p b).2.length))).data.length = size) :
    measure (((takeHeader p b).1.reserveExact (size - (takeHeader p b).1.data.length)).extend
      ((takeHeader p b).2.take (min (size - (takeHeader p b).1.data.length)
        (takeHeader p b).2.length)))
      ((takeHeader p b).2.drop (min (size - (takeHeader p b).1.data.length)
        (takeHeader p b).2.length)) < measure p b := by
  have hpos : 0 < b.length := List.length_pos_iff.2 hb
  simp only [Vec.extend, Vec.reserveExact, List.length_append, List.length_take] at hr
  simp only [measure, List.length_drop]
  cases takeHeader_cases p hb with
  | inl h => split <;> omega
  | inr h =>
    rw [if_neg h.1, h.2.1] at *
    split <;> omega

/-- The loop that takes the new octets in: `none` where its subtraction would underflow. Reference:
the second loop of `TcpFrames::input_with_limit` (`dns/wire.rs:905`). -/
def commit (p : Vec) (ready : List Vec) (b : Bytes) : Option (Vec × List Vec) :=
  if _ : b = [] then some (p, ready)
  else
    let q := (takeHeader p b).1
    let c := (takeHeader p b).2
    if q.data.length < 2 then some (q, ready)
    else
      let size := be16 q.data + 2
      if size < q.data.length then none
      else
        let n := min (size - q.data.length) c.length
        let r := (q.reserveExact (size - q.data.length)).extend (c.take n)
        if r.data.length = size then
          commit .empty (ready ++ [(r.copyWithin 2).truncate (size - 2)]) (c.drop n)
        else commit r ready (c.drop n)
termination_by measure p b
decreasing_by
  · exact measure_empty p (by assumption) _
  · exact measure_extend p (by assumption) (by assumption) (by assumption)

/-- Reference: `TcpFrames::input_with_limit` (`dns/wire.rs:862`). -/
def inputWithLimit (f : TcpFrames) (b : Bytes) (limit : Nat) :
    Option (Except IoError Unit × TcpFrames) :=
  let limit := min limit (maxWire + 2)
  if b.length > maxWire + 2 - f.bytes then some (.error wireInvalid, f)
  else
    let total := f.partial_.data.length + b.length
    let byte n := if n < f.partial_.data.length then f.partial_.data.getD n 0
      else b.getD (n - f.partial_.data.length) 0
    match headers f.max total byte 0 f.ready.length (f.ready.map Vec.capacity).sum with
    | none => some (.error wireInvalid, f)
    | some (pos, allocated) =>
      let allocated := if pos < total then allocated + 2 else allocated
      if allocated > limit then some (.error wireInvalid, f)
      else do
        let f := { f with bytes := f.bytes + b.length }
        let (p, ready) ← commit f.partial_ f.ready b
        some (.ok (), { f with partial_ := p, ready })

/-- Reference: `TcpFrames::pop` (`dns/wire.rs:931`). -/
def pop (f : TcpFrames) : Option Bytes × TcpFrames :=
  match f.ready with
  | [] => (none, f)
  | v :: ready => (some v.data, { f with ready, bytes := f.bytes - (v.data.length + 2) })

/-- Reference: `TcpFrames::allocated` (`dns/wire.rs:936`). -/
def allocated (f : TcpFrames) : Nat := f.partial_.capacity + (f.ready.map Vec.capacity).sum

end TcpFrames

/-! ## The reference decoding -/

/-- Two octets of length, then that many octets. -/
def framing : Framing UInt8 where
  size
    | hi :: lo :: _ => some (ofBe [hi, lo] + 2)
    | _ => none
  pos := by
    intro xs n h
    match xs, h with
    | _ :: _ :: _, h => cases h; omega
  stable := by
    intro xs n ys h
    match xs, h with
    | _ :: _ :: _, h => exact h

/-- The messages of a stream, and what remains of it after them. -/
def lengthPrefixed (s : Bytes) : List Bytes × Bytes :=
  ((framing.decode s).1.map (List.drop 2), (framing.decode s).2)

/-- With two octets the size of the frame is known. -/
theorem size_of_two {xs : Bytes} (h : 2 ≤ xs.length) : framing.size xs = some (be16 xs + 2) := by
  match xs, h with
  | _ :: _ :: _, _ => rfl

/-- With fewer octets the size of the frame is not known. -/
theorem size_eq_none {xs : Bytes} (h : xs.length < 2) : framing.size xs = none := by
  match xs, h with
  | [], _ => rfl
  | [_], _ => rfl
  | _ :: _ :: xs, h => exact absurd h (by simp)

/-- The room that is reserved for a frame that is not complete. -/
def reserved (xs : Bytes) : Nat :=
  match framing.size xs with
  | some n => n
  | none => if xs = [] then 0 else 2

/-- For a frame whose size is known, all of it is reserved. -/
theorem reserved_of_two {xs : Bytes} (h : 2 ≤ xs.length) : reserved xs = be16 xs + 2 := by
  rw [reserved, size_of_two h]

/-- For a frame whose size is not known yet, its length is reserved. -/
theorem reserved_one {xs : Bytes} (h : xs ≠ []) (h2 : xs.length < 2) : reserved xs = 2 := by
  rw [reserved, size_eq_none h2]
  exact if_neg h

/-- A frame as the connection keeps it: without its header, in the room reserved for both. -/
def stored (frame : Bytes) : Vec := ⟨frame.drop 2, frame.length⟩

namespace TcpFrames

/-! ## What the committing loop does -/

section Commit

variable {p : Vec} {b : Bytes}

/-- What the buffer holds between two calls. -/
structure Pending (p : Vec) : Prop where
  short : framing.Short p.data
  capacity : p.capacity = reserved p.data

/-- An empty buffer is one that waits for a frame. -/
theorem Pending.nil : Pending .empty where
  short := fun _ h => nomatch h
  capacity := rfl

/-- The buffer before the header is completed: with room for one header at least. An empty buffer
gets it now, and one with an octet has it already. -/
theorem Pending.room (h : Pending p) (hp : p.data.length < 2) :
    (if p.capacity = 0 then Vec.withCapacity 2 else p) = ⟨p.data, 2⟩ := by
  cases p with
  | mk data capacity =>
    have hc : capacity = reserved data := h.capacity
    by_cases hd : data = []
    · subst hd
      rw [if_pos (by rw [hc]; rfl)]
      rfl
    · rw [reserved_one hd hp] at hc
      rw [hc]
      rfl

/-- While the length of a frame is incomplete, octets of the input complete it. -/
theorem Pending.takeHeader_lt (h : Pending p) (hp : p.data.length < 2) :
    takeHeader p b = (⟨p.data ++ b.take (2 - p.data.length), 2⟩, b.drop (2 - p.data.length)) := by
  rw [takeHeader, h.room hp]
  simp only [hp, if_true, Vec.extend, Prod.mk.injEq, Vec.mk.injEq, List.length_take]
  refine ⟨⟨?_, by omega⟩, ?_⟩
  · rw [← List.take_eq_take_min]
  · by_cases hl : 2 - p.data.length ≤ b.length
    · rw [Nat.min_eq_left hl]
    · rw [Nat.min_eq_right (by omega), List.drop_length, List.drop_eq_nil_of_le (by omega)]

/-- Once the length of a frame is known, no more of the input is taken for it. -/
theorem Pending.takeHeader_ge (h : Pending p) (hp : 2 ≤ p.data.length) :
    takeHeader p b = (p, b) := by
  have hc : p.capacity ≠ 0 := by rw [h.capacity, reserved_of_two hp]; omega
  rw [takeHeader, if_neg hc]
  simp only [Nat.not_lt.2 hp, if_false]

/-- The first half of a turn: no octet is lost, and a header that is complete says a size that the
buffer does not exceed. -/
theorem Pending.takeHeader_spec (h : Pending p) :
    (takeHeader p b).1.data ++ (takeHeader p b).2 = p.data ++ b ∧
      ((takeHeader p b).1.data.length < 2 →
        (takeHeader p b).1 = ⟨p.data ++ b, 2⟩ ∧ (takeHeader p b).2 = []) ∧
      (2 ≤ (takeHeader p b).1.data.length →
        (takeHeader p b).1.data.length ≤ be16 (takeHeader p b).1.data + 2 ∧
          (takeHeader p b).1.capacity ≤ be16 (takeHeader p b).1.data + 2) := by
  by_cases hp : p.data.length < 2
  · simp only [h.takeHeader_lt hp, List.length_append, List.length_take]
    refine ⟨by simp, fun hl => ?_, fun hl => by omega⟩
    rw [List.take_of_length_le (by omega), List.drop_eq_nil_of_le (by omega)]
    exact ⟨rfl, rfl⟩
  · have hp : 2 ≤ p.data.length := by omega
    simp only [h.takeHeader_ge hp]
    refine ⟨trivial, fun hl => by omega, fun _ => ?_⟩
    have := h.short _ (size_of_two hp)
    rw [h.capacity, reserved_of_two hp]
    omega

/-- The octets after the header: those of a complete frame, or all there are. -/
theorem fill_data {q c : Bytes} {size : Nat} (hq : q.length ≤ size) :
    q ++ c.take (min (size - q.length) c.length) = (q ++ c).take size := by
  rw [← List.take_eq_take_min, List.take_append, List.take_of_length_le hq]

/-- What is left of the input after a buffer was filled is what lies beyond its size. -/
theorem fill_rest {q c : Bytes} {size : Nat} (hq : q.length ≤ size) :
    c.drop (min (size - q.length) c.length) = (q ++ c).drop size := by
  rw [List.drop_append, List.drop_eq_nil_of_le hq, List.nil_append]
  by_cases hl : size - q.length ≤ c.length
  · rw [Nat.min_eq_left hl]
  · rw [Nat.min_eq_right (by omega), List.drop_length, List.drop_eq_nil_of_le (by omega)]

/-- Filling a buffer reserves no more than the size of the frame. -/
theorem fill_capacity {q : Vec} {c : Bytes} {size : Nat} (hq : q.data.length ≤ size)
    (hc : q.capacity ≤ size) :
    ((q.reserveExact (size - q.data.length)).extend
      (c.take (min (size - q.data.length) c.length))).capacity = size := by
  simp only [Vec.extend, Vec.reserveExact, List.length_take]
  omega

/-- A complete frame, as it is put among the ready ones. -/
theorem frame_eq (v : Vec) :
    (v.copyWithin 2).truncate (v.data.length - 2) = ⟨v.data.drop 2, v.capacity⟩ := by
  simp only [Vec.copyWithin, Vec.truncate]
  rw [List.take_append_of_le_length (by simp), List.take_of_length_le (by simp)]

/-- The frame that the buffer begins takes an octet more than it holds. With two octets the size is
known, and the buffer is short of it; with fewer it is short of the header. -/
theorem Pending.lt_size (h : Pending p) {n : Nat} (hn : framing.size (p.data ++ b) = some n) :
    p.data.length < n := by
  by_cases hp : p.data.length < 2
  · by_cases hb : (p.data ++ b).length < 2
    · rw [size_eq_none hb] at hn
      cases hn
    · rw [size_of_two (by omega)] at hn
      cases hn
      omega
  · have h2 : framing.size p.data = some (be16 p.data + 2) := size_of_two (by omega)
    rw [framing.stable b h2] at hn
    cases hn
    exact h.short _ h2

/-- Committing no octets changes nothing. -/
theorem commit_nil (p : Vec) (ready : List Vec) : commit p ready [] = some (p, ready) := by
  rw [commit]
  exact dif_pos rfl

/-- A turn of the loop that completes a frame moves it to the frames that are ready, and starts over
with the octets behind it. The header is completed first (`takeHeader_spec`); once it is there, the
size of the frame is known, and `fill` takes the body. -/
theorem Pending.commit_frame (h : Pending p) (ready : List Vec) (hb : b ≠ []) {n : Nat}
    (hn : framing.size (p.data ++ b) = some n) (hl : n ≤ (p.data ++ b).length) :
    commit p ready b = commit .empty (ready ++ [stored ((p.data ++ b).take n)])
      ((p.data ++ b).drop n) := by
  obtain ⟨hdata, hone, htwo⟩ := h.takeHeader_spec (b := b)
  rw [commit, dif_neg hb]
  generalize takeHeader p b = t at *
  obtain ⟨q, c⟩ := t
  simp only at hdata hone htwo ⊢
  by_cases hq : q.data.length < 2
  · exfalso
    obtain ⟨rfl, -⟩ := hone hq
    rw [size_eq_none hq] at hn
    cases hn
  · have hq : 2 ≤ q.data.length := by omega
    obtain ⟨hle, hcap⟩ := htwo hq
    rw [← hdata] at hn hl
    obtain rfl : be16 q.data + 2 = n := by
      rw [framing.stable c (size_of_two hq)] at hn
      exact Option.some.inj hn
    have hr := fill_data (c := c) hle
    have hlen : ((q.data ++ c).take (be16 q.data + 2)).length = be16 q.data + 2 := by
      rw [List.length_take]
      omega
    have hv : ∀ v : Vec, v.data = (q.data ++ c).take (be16 q.data + 2) →
        v.capacity = be16 q.data + 2 → (v.copyWithin 2).truncate (be16 q.data + 2 - 2) =
          stored ((q.data ++ c).take (be16 q.data + 2)) := by
      intro v hd hc
      have := frame_eq v
      rw [hd, hlen] at this
      rw [this, stored, hc, hlen]
    rw [if_neg (by omega), if_neg (by omega),
      if_pos (by simp only [Vec.extend, Vec.reserveExact, hr, hlen]),
      hv _ hr (fill_capacity hle hcap), fill_rest hle, hdata]

/-- A turn of the loop that completes none keeps all octets, and reserves room for the frame that
they begin. The header may itself be incomplete, in which case two octets are reserved. -/
theorem Pending.commit_short (h : Pending p) (ready : List Vec) (hb : b ≠ [])
    (hs : framing.Short (p.data ++ b)) :
    commit p ready b = some (⟨p.data ++ b, reserved (p.data ++ b)⟩, ready) := by
  obtain ⟨hdata, hone, htwo⟩ := h.takeHeader_spec (b := b)
  rw [commit, dif_neg hb]
  generalize takeHeader p b = t at *
  obtain ⟨q, c⟩ := t
  simp only at hdata hone htwo ⊢
  by_cases hq : q.data.length < 2
  · obtain ⟨rfl, -⟩ := hone hq
    rw [if_pos hq, reserved_one (by simp [hb]) hq]
  · have hq : 2 ≤ q.data.length := by omega
    obtain ⟨hle, hcap⟩ := htwo hq
    rw [← hdata] at hs ⊢
    have hlt := hs _ (framing.stable c (size_of_two hq))
    have hr := (fill_data (c := c) hle).trans (List.take_of_length_le (by omega))
    have hrest := (fill_rest (c := c) hle).trans (List.drop_eq_nil_of_le (by omega))
    have hres : reserved (q.data ++ c) = be16 q.data + 2 := by
      rw [reserved, framing.stable c (size_of_two hq)]
    have hv : ∀ v : Vec, v.data = q.data ++ c → v.capacity = be16 q.data + 2 →
        v = ⟨q.data ++ c, reserved (q.data ++ c)⟩ := by
      intro v hd hc
      rw [← hd, hd, hres, ← hc, ← hd]
    rw [if_neg (by omega), if_neg (by omega),
      if_neg (by simp only [Vec.extend, Vec.reserveExact, hr]; omega), hrest, commit_nil,
      hv _ hr (fill_capacity hle hcap)]

/-- The committing loop appends the complete frames to the ready ones and keeps what remains. By
strong induction on the length of what was received, since each turn ends a frame or the input. -/
theorem commit_eq (h : Pending p) (ready : List Vec) (b : Bytes) :
    commit p ready b = some (⟨(framing.decode (p.data ++ b)).2,
      reserved (framing.decode (p.data ++ b)).2⟩,
      ready ++ (framing.decode (p.data ++ b)).1.map stored) := by
  induction hm : b.length using Nat.strongRecOn generalizing p ready b with
  | _ m ih =>
    by_cases hb : b = []
    · subst hb
      rw [commit_nil, List.append_nil, Framing.decode_short h.short]
      simp [← h.capacity]
    · obtain hs | ⟨n, hn, hl⟩ := framing.short_or_frame (p.data ++ b)
      · rw [h.commit_short ready hb hs, Framing.decode_short hs]
        simp
      · have hlt : ((p.data ++ b).drop n).length < m := by
          have := h.lt_size hn
          rw [List.length_append] at hl
          rw [List.length_drop, List.length_append]
          omega
        rw [h.commit_frame ready hb hn hl, ih _ hlt .nil _ _ rfl, Framing.decode_frame hn hl]
        simp [Vec.empty]

end Commit

/-! ## What the validating loop accepts -/

/-- The sizes that a header may say. -/
def Fits (max n : Nat) : Prop := 14 ≤ n ∧ n ≤ max + 2

/-- Every header of a stream says a size that fits, that of a frame that is not complete
included. -/
structure Valid (max : Nat) (xs : Bytes) : Prop where
  frames : ∀ fr ∈ (framing.decode xs).1, Fits max fr.length
  rest : ∀ n, framing.size (framing.decode xs).2 = some n → Fits max n

/-- The room that a stream takes. -/
def charge (xs : Bytes) : Nat :=
  ((framing.decode xs).1.map List.length).sum + reserved (framing.decode xs).2

section Validate

variable {max n : Nat} {xs ys : Bytes}

/-- What holds no complete frame is valid if the size of the frame, once known, is allowed. -/
theorem valid_short (hs : framing.Short xs) :
    Valid max xs ↔ ∀ n, framing.size xs = some n → Fits max n := by
  constructor
  · intro h
    have := h.rest
    rwa [Framing.decode_short hs] at this
  · intro h
    constructor <;> rw [Framing.decode_short hs]
    · intro fr hfr
      cases hfr
    · exact h

/-- A stream is valid if its first frame is allowed and the rest is valid. Both sides are read off
from the frames of the stream (`Framing.decode_frame`). -/
theorem valid_frame (hn : framing.size xs = some n) (hl : n ≤ xs.length) :
    Valid max xs ↔ Fits max n ∧ Valid max (xs.drop n) := by
  have hlen : (xs.take n).length = n := by rw [List.length_take]; omega
  have hd := Framing.decode_frame hn hl
  constructor
  · intro h
    have hf := h.frames
    have hr := h.rest
    rw [hd] at hf hr
    exact ⟨hlen ▸ hf _ List.mem_cons_self, fun fr hfr => hf fr (List.mem_cons_of_mem _ hfr), hr⟩
  · intro h
    constructor <;> rw [hd]
    · intro fr hfr
      cases hfr with
      | head => exact hlen.symm ▸ h.1
      | tail _ hfr => exact h.2.frames fr hfr
    · exact h.2.rest

/-- The first header of a valid stream. -/
theorem Valid.size (h : Valid max xs) (hn : framing.size xs = some n) : Fits max n := by
  obtain hs | ⟨m, hm, hl⟩ := framing.short_or_frame xs
  · exact (valid_short hs).1 h n hn
  · rw [hm] at hn
    cases hn
    exact ((valid_frame hm hl).1 h).1

/-- What holds no complete frame is charged for what is reserved. -/
theorem charge_short (hs : framing.Short xs) : charge xs = reserved xs := by
  rw [charge, Framing.decode_short hs]
  simp

/-- A stream is charged for its first frame and for the rest. -/
theorem charge_frame (hn : framing.size xs = some n) (hl : n ≤ xs.length) :
    charge xs = n + charge (xs.drop n) := by
  simp only [charge, Framing.decode_frame hn hl, List.map_cons, List.sum_cons, List.length_take]
  omega

/-- What the first frame of a stream is charged does not go down when the stream grows: its size is
known from its first two octets, and stays. -/
theorem reserved_le_charge (xs ys : Bytes) : reserved xs ≤ charge (xs ++ ys) := by
  have hle : ∀ {n}, framing.size (xs ++ ys) = some n → n ≤ charge (xs ++ ys) := by
    intro n hn
    obtain hs | ⟨m, hm, hl⟩ := framing.short_or_frame (xs ++ ys)
    · rw [charge_short hs, reserved, hn]
    · rw [hm] at hn
      cases hn
      rw [charge_frame hm hl]
      omega
  by_cases h2 : 2 ≤ xs.length
  · rw [reserved_of_two h2]
    exact hle (framing.stable ys (size_of_two h2))
  · by_cases hxs : xs = []
    · subst hxs
      exact Nat.zero_le _
    · rw [reserved_one hxs (by omega)]
      by_cases h2 : 2 ≤ (xs ++ ys).length
      · have := hle (size_of_two h2)
        omega
      · have hs : framing.Short (xs ++ ys) := by
          intro n hn
          rw [size_eq_none (by omega)] at hn
          cases hn
        rw [charge_short hs, reserved_one (by simp [hxs]) (by omega)]

/-- Two pieces are valid together iff the first is and what remains of it followed by the second.
The frames of the two are those of the first and of that rest (`decode_append`). -/
theorem valid_append :
    Valid max (xs ++ ys) ↔ Valid max xs ∧ Valid max ((framing.decode xs).2 ++ ys) := by
  have hd := framing.decode_append xs ys
  constructor
  · intro h
    have hf := h.frames
    have hr := h.rest
    rw [hd] at hf hr
    have hv : Valid max ((framing.decode xs).2 ++ ys) :=
      ⟨fun fr hfr => hf fr (List.mem_append_right _ hfr), hr⟩
    exact ⟨⟨fun fr hfr => hf fr (List.mem_append_left _ hfr),
      fun n hn => hv.size (framing.stable ys hn)⟩, hv⟩
  · intro h
    constructor <;> rw [hd]
    · intro fr hfr
      cases List.mem_append.1 hfr with
      | inl hfr => exact h.1.frames fr hfr
      | inr hfr => exact h.2.frames fr hfr
    · exact h.2.rest

/-- Two pieces are charged for the frames of the first, and for the rest of it together with the
second. -/
theorem charge_append (xs ys : Bytes) : charge (xs ++ ys) =
    ((framing.decode xs).1.map List.length).sum + charge ((framing.decode xs).2 ++ ys) := by
  rw [charge, framing.decode_append xs ys, charge]
  simp only [List.map_append, List.sum_append]
  omega

/-- The header that the loop reads at a position. -/
theorem size_drop {byte : Nat → UInt8} (hbyte : ∀ i < xs.length, byte i = xs.getD i 0) {pos : Nat}
    (h : xs.length - pos ≥ 2) :
    framing.size (xs.drop pos) = some (ofBe [byte pos, byte (pos + 1)] + 2) := by
  have h0 : pos < xs.length := by omega
  have h1 : pos + 1 < xs.length := by omega
  rw [hbyte pos h0, hbyte (pos + 1) h1, List.getD_eq_getElem _ _ h0, List.getD_eq_getElem _ _ h1,
    List.drop_eq_getElem_cons h0, List.drop_eq_getElem_cons h1]
  rfl

/-- The charge of the whole loop, once the octet that follows the last frame is charged too. -/
def finish (total : Nat) (r : Nat × Nat) : Nat := if r.1 < total then r.2 + 2 else r.2

/-- The validating loop accepts the streams whose headers are valid and whose complete frames find
a place, and charges the room that they take. -/
theorem headers_eq {byte : Nat → UInt8} (hbyte : ∀ i < xs.length, byte i = xs.getD i 0)
    {pos count allocated a : Nat} (hc : count ≤ 32) (hp : pos ≤ xs.length) :
    (headers max xs.length byte pos count allocated).map (finish xs.length) = some a ↔
      Valid max (xs.drop pos) ∧ count + (framing.decode (xs.drop pos)).1.length ≤ 32 ∧
        a = allocated + charge (xs.drop pos) := by
  induction hm : xs.length - pos using Nat.strongRecOn generalizing pos count allocated with
  | _ m ih =>
    rw [headers]
    by_cases h2 : xs.length - pos ≥ 2
    · have hsize := size_drop hbyte h2
      rw [if_pos h2]
      simp only
      generalize ofBe [byte pos, byte (pos + 1)] = n at hsize ⊢
      by_cases hn : n < 12 ∨ n > max
      · rw [if_pos hn]
        refine ⟨fun h => by simp at h, fun h => ?_⟩
        have := h.1.size hsize
        unfold Fits at this
        omega
      · have hf : Fits max (n + 2) := by unfold Fits; omega
        rw [if_neg hn]
        by_cases hl : xs.length - pos < n + 2
        · have hs : framing.Short (xs.drop pos) := by
            intro k hk
            rw [hsize] at hk
            cases hk
            rwa [List.length_drop]
          have hv : Valid max (xs.drop pos) := by
            rw [valid_short hs]
            intro k hk
            rw [hsize] at hk
            cases hk
            exact hf
          rw [if_pos hl, charge_short hs, Framing.decode_short hs, reserved, hsize]
          simp only [Option.map_some, Option.some.injEq, finish, Nat.lt_irrefl, if_false, hv,
            List.length_nil, true_and]
          omega
        · have hl' : n + 2 ≤ (xs.drop pos).length := by rw [List.length_drop]; omega
          have hd := Framing.decode_frame hsize hl'
          rw [if_neg hl, valid_frame hsize hl', charge_frame hsize hl', hd, List.drop_drop]
          by_cases h32 : count + 1 > 32
          · rw [if_pos h32]
            simp only [Option.map_none, List.length_cons]
            refine ⟨fun h => by simp at h, fun h => by omega⟩
          · rw [if_neg h32, ih (xs.length - (pos + (n + 2))) (by omega) (by omega) (by omega) rfl]
            simp only [hf, true_and, List.length_cons]
            refine and_congr Iff.rfl (and_congr ?_ ?_) <;> omega
    · have hlen : (xs.drop pos).length < 2 := by rw [List.length_drop]; omega
      have hs : framing.Short (xs.drop pos) := by
        intro k hk
        rw [size_eq_none hlen] at hk
        cases hk
      have hv : Valid max (xs.drop pos) := by
        rw [valid_short hs]
        intro k hk
        rw [size_eq_none hlen] at hk
        cases hk
      rw [if_neg h2, charge_short hs, Framing.decode_short hs, reserved, size_eq_none hlen]
      by_cases hlt : pos < xs.length
      · simp [finish, hlt, hv, hc, eq_comm, Nat.not_le.2 hlt]
      · simp [finish, hlt, hv, hc, eq_comm, Nat.not_lt.1 hlt]

end Validate

/-! ## One call -/

/-- What holds of a connection between two calls. -/
structure Inv (f : TcpFrames) : Prop where
  pending : Pending f.partial_
  count : f.ready.length ≤ 32
  bytes : f.bytes = f.partial_.data.length + (f.ready.map fun v => v.data.length + 2).sum

/-- The connection after the octets `b` were taken in. -/
def fed (f : TcpFrames) (b : Bytes) : TcpFrames :=
  { f with
    partial_ := ⟨(framing.decode (f.partial_.data ++ b)).2,
      reserved (framing.decode (f.partial_.data ++ b)).2⟩
    ready := f.ready ++ (framing.decode (f.partial_.data ++ b)).1.map stored
    bytes := f.bytes + b.length }

/-- What `inputWithLimit` takes in. -/
structure Accepts (f : TcpFrames) (b : Bytes) (limit : Nat) : Prop where
  length : b.length ≤ maxWire + 2 - f.bytes
  valid : Valid f.max (f.partial_.data ++ b)
  count : f.ready.length + (framing.decode (f.partial_.data ++ b)).1.length ≤ 32
  charge : (f.ready.map Vec.capacity).sum + charge (f.partial_.data ++ b) ≤
    min limit (maxWire + 2)

section Calls

variable {f : TcpFrames} {b : Bytes} {limit : Nat}

/-- The octets that the validating loop reads are those of the buffer and the new ones. -/
theorem byte_eq (p b : Bytes) (i : Nat) :
    (if i < p.length then p.getD i 0 else b.getD (i - p.length) 0) = (p ++ b).getD i 0 := by
  by_cases h : i < p.length
  · rw [if_pos h, List.getD_append _ _ _ _ h]
  · rw [if_neg h, List.getD_append_right _ _ _ _ (by omega)]

/-- The charge that the validating loop reports. -/
theorem Inv.headers (h : Inv f) (a : Nat) :
    ((headers f.max (f.partial_.data.length + b.length)
      (fun n => if n < f.partial_.data.length then f.partial_.data.getD n 0
        else b.getD (n - f.partial_.data.length) 0)
      0 f.ready.length (f.ready.map Vec.capacity).sum).map
        (finish (f.partial_.data.length + b.length)) = some a) ↔
      Valid f.max (f.partial_.data ++ b) ∧
        f.ready.length + (framing.decode (f.partial_.data ++ b)).1.length ≤ 32 ∧
        a = (f.ready.map Vec.capacity).sum + TcpFrames.charge (f.partial_.data ++ b) := by
  rw [← List.length_append,
    headers_eq (fun i _ => byte_eq f.partial_.data b i) h.count (Nat.zero_le _), List.drop_zero]

/-- A call takes everything in, or it fails and changes nothing. The checks of `input_with_limit`
come in the order of the clauses of `Accepts`, and the octets are committed after the last one. -/
theorem Inv.inputWithLimit (h : Inv f) :
    Accepts f b limit ∧ f.inputWithLimit b limit = some (.ok (), f.fed b) ∨
      ¬ Accepts f b limit ∧ f.inputWithLimit b limit = some (.error wireInvalid, f) := by
  have hhead := h.headers (b := b)
  rw [TcpFrames.inputWithLimit]
  by_cases hlen : b.length > maxWire + 2 - f.bytes
  · exact .inr ⟨fun ha => Nat.not_le.2 hlen ha.length, if_pos hlen⟩
  · rw [if_neg hlen]
    simp only
    generalize TcpFrames.headers f.max _ _ 0 f.ready.length _ = o at hhead ⊢
    cases o with
    | none =>
      refine .inr ⟨fun ha => ?_, rfl⟩
      have := (hhead _).2 ⟨ha.valid, ha.count, rfl⟩
      cases this
    | some r =>
      obtain ⟨hvalid, hcount, ha⟩ := (hhead _).1 rfl
      unfold finish at ha
      simp only [ha]
      by_cases hcharge : (f.ready.map Vec.capacity).sum + TcpFrames.charge (f.partial_.data ++ b) >
          min limit (maxWire + 2)
      · rw [if_pos hcharge]
        exact .inr ⟨fun ha => Nat.not_le.2 hcharge ha.charge, rfl⟩
      · rw [if_neg hcharge, commit_eq h.pending]
        exact .inl ⟨⟨Nat.not_lt.1 hlen, hvalid, hcount, Nat.not_lt.1 hcharge⟩, rfl⟩

/-- What is stored of frames, with their lengths, is as long as the frames were. -/
theorem sum_stored (frames : List Bytes) (h : ∀ fr ∈ frames, 2 ≤ fr.length) :
    ((frames.map stored).map fun v => v.data.length + 2).sum = frames.flatten.length := by
  induction frames with
  | nil => rfl
  | cons fr frames ih =>
    have h2 := h fr List.mem_cons_self
    have := ih fun g hg => h g (List.mem_cons_of_mem _ hg)
    simp only [List.map_cons, List.sum_cons, List.flatten_cons, List.length_append, this, stored,
      List.length_drop]
    omega

/-- What is stored of frames takes the capacity of the frames. -/
theorem sum_capacity_stored (frames : List Bytes) :
    ((frames.map stored).map Vec.capacity).sum = (frames.map List.length).sum := by
  rw [List.map_map]
  rfl

/-- Octets that are taken in keep the invariant. -/
theorem Inv.fed (h : Inv f) (ha : Accepts f b limit) : Inv (f.fed b) where
  pending := ⟨framing.short_decode _, rfl⟩
  count := by
    simp only [TcpFrames.fed, List.length_append, List.length_map]
    exact ha.count
  bytes := by
    have hl := congrArg List.length (framing.flatten_decode (f.partial_.data ++ b))
    have hs := sum_stored _ fun fr hfr => Nat.le_trans (by omega) (ha.valid.frames fr hfr).1
    simp only [List.length_append] at hl
    simp only [TcpFrames.fed, List.map_append, List.sum_append, hs, h.bytes]
    omega

/-- What is allocated afterwards is what was charged. -/
theorem allocated_fed (f : TcpFrames) (b : Bytes) :
    (f.fed b).allocated = (f.ready.map Vec.capacity).sum + charge (f.partial_.data ++ b) := by
  simp only [allocated, fed, List.map_append, List.sum_append, sum_capacity_stored, charge]
  omega

/-- Two pieces are accepted together iff they are accepted one after the other. Each condition is
about what is decoded and what remains, and both are known for a stream that is fed in two pieces
(`decode_append`, `charge_append`). -/
theorem accepts_append (f : TcpFrames) (a b : Bytes) (limit : Nat) :
    Accepts f (a ++ b) limit ↔ Accepts f a limit ∧ Accepts (f.fed a) b limit := by
  have hd := framing.decode_append (f.partial_.data ++ a) b
  have hc := charge_append (f.partial_.data ++ a) b
  have hr := reserved_le_charge (framing.decode (f.partial_.data ++ a)).2 b
  have hca : charge (f.partial_.data ++ a) =
    ((framing.decode (f.partial_.data ++ a)).1.map List.length).sum +
      reserved (framing.decode (f.partial_.data ++ a)).2 := rfl
  constructor
  · intro h
    have hl := h.length
    have hv := h.valid
    have hn := h.count
    have hch := h.charge
    rw [← List.append_assoc] at hv hn hch
    rw [hd, List.length_append] at hn
    rw [List.length_append] at hl
    refine ⟨⟨by omega, (valid_append.1 hv).1, by omega, by omega⟩,
      ⟨?_, (valid_append.1 hv).2, ?_, ?_⟩⟩
    · simp only [fed]
      omega
    · simp only [fed, List.length_append, List.length_map]
      omega
    · simp only [fed, List.map_append, List.sum_append, sum_capacity_stored]
      omega
  · intro h
    have hl := h.2.length
    have hn := h.2.count
    have hch := h.2.charge
    simp only [fed, List.length_append, List.length_map, List.map_append, List.sum_append,
      sum_capacity_stored] at hl hn hch
    refine ⟨?_, ?_, ?_, ?_⟩
    · have := h.1.length
      rw [List.length_append]
      omega
    · rw [← List.append_assoc]
      exact valid_append.2 ⟨h.1.valid, h.2.valid⟩
    · rw [← List.append_assoc, hd, List.length_append]
      omega
    · rw [← List.append_assoc]
      omega

/-- The connection is the same whether two pieces come together or one after the other. -/
theorem fed_append (f : TcpFrames) (a b : Bytes) : f.fed (a ++ b) = (f.fed a).fed b := by
  have hd := framing.decode_append (f.partial_.data ++ a) b
  simp only [fed, ← List.append_assoc, hd, List.map_append, List.length_append, Nat.add_assoc]

/-- The successful calls. -/
theorem Inv.inputWithLimit_eq_ok (h : Inv f) {f' : TcpFrames} :
    f.inputWithLimit b limit = some (.ok (), f') ↔ Accepts f b limit ∧ f' = f.fed b := by
  obtain ⟨ha, he⟩ | ⟨ha, he⟩ := h.inputWithLimit (b := b)
  · rw [he]
    simp only [Option.some.injEq, Prod.mk.injEq, true_and, ha]
    exact eq_comm
  · rw [he]
    simp [ha]

/-- Input in one piece and input in two are accepted alike and leave the same state. Both sides are
read off from the frames of the input (`accepts_append`, `fed_append`). -/
theorem Inv.input_append (h : Inv f) (a b : Bytes) (limit : Nat) (f₂ : TcpFrames) :
    f.inputWithLimit (a ++ b) limit = some (.ok (), f₂) ↔
      ∃ f₁, f.inputWithLimit a limit = some (.ok (), f₁) ∧
        f₁.inputWithLimit b limit = some (.ok (), f₂) := by
  constructor
  · intro he
    obtain ⟨ha, rfl⟩ := h.inputWithLimit_eq_ok.1 he
    obtain ⟨h₁, h₂⟩ := (accepts_append f a b limit).1 ha
    exact ⟨f.fed a, h.inputWithLimit_eq_ok.2 ⟨h₁, rfl⟩,
      (h.fed h₁).inputWithLimit_eq_ok.2 ⟨h₂, fed_append f a b⟩⟩
  · rintro ⟨f₁, he₁, he₂⟩
    obtain ⟨h₁, rfl⟩ := h.inputWithLimit_eq_ok.1 he₁
    obtain ⟨h₂, rfl⟩ := (h.fed h₁).inputWithLimit_eq_ok.1 he₂
    exact h.inputWithLimit_eq_ok.2 ⟨(accepts_append f a b limit).2 ⟨h₁, h₂⟩,
      (fed_append f a b).symm⟩

end Calls

/-! ## Connections -/

/-- The histories of a connection: the octets that its calls took in, the messages that were popped,
and the connection they lead to. -/
inductive Reached (max : Nat) : Bytes → List Bytes → TcpFrames → Prop
  | new {f : TcpFrames} (h : TcpFrames.new max = .ok f) : Reached max [] [] f
  | accepted {s : Bytes} {popped : List Bytes} {f f' : TcpFrames} (b : Bytes) (limit : Nat)
      (run : Reached max s popped f) (h : f.inputWithLimit b limit = some (.ok (), f')) :
      Reached max (s ++ b) popped f'
  | rejected {s : Bytes} {popped : List Bytes} {f f' : TcpFrames} (b : Bytes) (limit : Nat)
      {e : IoError} (run : Reached max s popped f)
      (h : f.inputWithLimit b limit = some (.error e, f')) : Reached max s popped f'
  | popped {s : Bytes} {popped : List Bytes} {f f' : TcpFrames} {m : Bytes}
      (run : Reached max s popped f) (h : f.pop = (some m, f')) : Reached max s (popped ++ [m]) f'
  | idle {s : Bytes} {popped : List Bytes} {f f' : TcpFrames}
      (run : Reached max s popped f) (h : f.pop = (none, f')) : Reached max s popped f'

section Histories

variable {max : Nat} {s : Bytes} {popped : List Bytes} {f : TcpFrames}

/-- What is stored of a frame is its contents without the length. -/
theorem map_stored_data (frames : List Bytes) :
    (frames.map stored).map Vec.data = frames.map (List.drop 2) := by
  rw [List.map_map]
  rfl

/-- A stream that goes on: its new messages are those of what remained followed by the new
octets. -/
theorem lengthPrefixed_append (s b : Bytes) : lengthPrefixed (s ++ b) =
    ((lengthPrefixed s).1 ++ (lengthPrefixed ((lengthPrefixed s).2 ++ b)).1,
      (lengthPrefixed ((lengthPrefixed s).2 ++ b)).2) := by
  simp only [lengthPrefixed, framing.decode_append s b, List.map_append]

/-- Along every history the invariant holds, and the messages popped, those ready and the buffered
remainder are the decoding of what was taken in. -/
theorem Reached.inv (h : Reached max s popped f) :
    Inv f ∧ (popped ++ f.ready.map Vec.data, f.partial_.data) = lengthPrefixed s := by
  induction h with
  | new h =>
    rw [TcpFrames.new] at h
    split at h
    · cases h
    · cases h
      refine ⟨⟨.nil, by simp, rfl⟩, ?_⟩
      have hs : framing.Short [] := fun _ h => nomatch h
      rw [lengthPrefixed, Framing.decode_short hs]
      rfl
  | accepted b limit _ h ih =>
    obtain ⟨hinv, hdec⟩ := ih
    obtain ⟨ha, rfl⟩ := hinv.inputWithLimit_eq_ok.1 h
    refine ⟨hinv.fed ha, ?_⟩
    rw [lengthPrefixed_append, ← hdec]
    simp only [fed, List.map_append, map_stored_data, lengthPrefixed, List.append_assoc]
  | rejected b limit _ h ih =>
    obtain ⟨-, he⟩ | ⟨-, he⟩ := ih.1.inputWithLimit
    · rw [he] at h
      cases h
    · rw [he] at h
      cases h
      exact ih
  | @popped s popped f f' m _ h ih =>
    obtain ⟨hinv, hdec⟩ := ih
    rw [pop] at h
    cases hr : f.ready with
    | nil =>
      rw [hr] at h
      cases h
    | cons v ready =>
      rw [hr] at h hdec
      cases h
      refine ⟨⟨hinv.pending, ?_, ?_⟩, ?_⟩
      · have := hinv.count
        rw [hr] at this
        exact Nat.le_of_succ_le this
      · have := hinv.bytes
        rw [hr] at this
        simp only [List.map_cons, List.sum_cons] at this
        simp only
        omega
      · rw [← hdec]
        simp
  | @idle s popped f f' _ h ih =>
    rw [pop] at h
    cases hr : f.ready with
    | nil =>
      rw [hr] at h
      cases h
      exact ih
    | cons v ready =>
      rw [hr] at h
      cases h

/-- Framing does not depend on how the stream was cut: along every history of a connection, the
messages popped, those ready and the buffered remainder are the decoding of the stream, the octets
are counted, pieces may be joined, and a call that fails changes nothing. -/
theorem framing_independent_of_segmentation (h : Reached max s popped f) :
    (popped ++ f.ready.map Vec.data, f.partial_.data) = lengthPrefixed s ∧
      f.bytes = f.partial_.data.length + (f.ready.map fun v => v.data.length + 2).sum ∧
      (∀ a b limit f₂, f.inputWithLimit (a ++ b) limit = some (.ok (), f₂) ↔
        ∃ f₁, f.inputWithLimit a limit = some (.ok (), f₁) ∧
          f₁.inputWithLimit b limit = some (.ok (), f₂)) ∧
      ∀ b limit, ∃ r f', f.inputWithLimit b limit = some (r, f') ∧ (∀ e, r = .error e → f' = f) ∧
        (r = .ok () → f'.allocated ≤ min limit (maxWire + 2)) := by
  obtain ⟨hinv, hdec⟩ := h.inv
  refine ⟨hdec, hinv.bytes, hinv.input_append, fun b limit => ?_⟩
  obtain ⟨ha, he⟩ | ⟨-, he⟩ := hinv.inputWithLimit (b := b)
  · refine ⟨_, _, he, fun _ h => (nomatch h), fun _ => ?_⟩
    rw [allocated_fed]
    exact ha.charge
  · exact ⟨_, _, he, fun _ _ => rfl, fun h => nomatch h⟩

end Histories

/-- A message of twelve octets whose header was cut in two, popped while the header of the next one
has begun. -/
theorem reached_split_header : Reached 12 ([] ++ [0] ++ (12 :: List.replicate 12 7 ++ [0]))
    ([] ++ [List.replicate 12 7]) ⟨12, ⟨[0], 2⟩, [], 1⟩ := by
  have first : (⟨12, .empty, [], 0⟩ : TcpFrames).inputWithLimit [0] 65537 =
      some (.ok (), ⟨12, ⟨[0], 2⟩, [], 1⟩) := by
    simp [inputWithLimit, headers, commit, takeHeader, Vec.empty, Vec.withCapacity, Vec.extend,
      maxWire]
  have second : (⟨12, ⟨[0], 2⟩, [], 1⟩ : TcpFrames).inputWithLimit
      (12 :: List.replicate 12 7 ++ [0]) 65537 =
      some (.ok (), ⟨12, ⟨[0], 2⟩, [⟨List.replicate 12 7, 14⟩], 15⟩) := by
    simp [inputWithLimit, headers, commit, takeHeader, Vec.empty, Vec.withCapacity, Vec.extend,
      maxWire, List.replicate, ofBe, be16, Vec.reserveExact, Vec.copyWithin, Vec.truncate]
  exact .popped (.accepted _ _ (.accepted _ _ (.new rfl) first) second) rfl

/-- The theorem applied to a stream that is split inside of a length: the same frames are read as
from one piece. -/
theorem framing_independent_of_segmentation_split_header :
    ([] ++ [List.replicate 12 7] ++ [], [0]) =
        lengthPrefixed ([] ++ [0] ++ (12 :: List.replicate 12 7 ++ [0])) ∧
      Reached 12 ([] ++ [0] ++ (12 :: List.replicate 12 7 ++ [0]))
        ([] ++ [List.replicate 12 7]) ⟨12, ⟨[0], 2⟩, [], 1⟩ :=
  ⟨(framing_independent_of_segmentation reached_split_header).1, reached_split_header⟩

end TcpFrames

end SnacMachine.Dns
