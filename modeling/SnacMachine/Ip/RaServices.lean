import Mathlib.Data.List.Sort
import SnacMachine.Ip.RaWire

/-!
# The services of a Router Advertisement

An advertisement with resolvers and NAT64 prefixes is read back as what was given: its prefixes in
order, for each prefix the first route that was given for it, the resolvers, and the NAT64 prefixes
with their lifetimes in units of eight seconds.
-/

namespace SnacMachine.Ip

open Nat64 (Link)

/-! ## NAT64 prefixes -/

/-- A lifetime as an option can tell it. -/
def Pref64.rounded (p : Pref64) : Pref64 :=
  { p with lifetime := min ((p.lifetime + 7) / 8 * 8) 65528 }

/-- Rounding up to units of eight seconds and cutting at the largest lifetime may be done in either
order. -/
theorem scaled_eq (n : Nat) :
    (min n 65528 + 7) / 8 * 8 = min ((n + 7) / 8 * 8) 65528 := by
  omega

/-- The lengths that an option can tell, by their codes. -/
theorem plc_cases {n : UInt8} {plc : Nat}
    (h : ([96, 64, 56, 48, 40, 32] : List UInt8).findIdx? (· == n) = some plc) :
    plc < 8 ∧ ([96, 64, 56, 48, 40, 32] : List UInt8)[plc]? = some n ∧ n ≤ 96 := by
  obtain ⟨hlt, heq, -⟩ := List.findIdx?_eq_some_iff_getElem.1 h
  have hget : ([96, 64, 56, 48, 40, 32] : List UInt8)[plc]? = some n := by
    rw [List.getElem?_eq_getElem hlt, beq_iff_eq.1 heq]
  refine ⟨Nat.lt_trans hlt (by decide), hget, ?_⟩
  have hall : ∀ m ∈ ([96, 64, 56, 48, 40, 32] : List UInt8), m.toNat ≤ 96 := by simp
  exact UInt8.le_iff_toNat_le.2 (hall n (List.mem_of_getElem? hget))

/-- A lifetime and a code share a word: the code takes the low three bits, and the lifetime, a
multiple of eight, the others. -/
theorem word_parts {k plc : Nat} (hk : k ≤ 8191) (hplc : plc < 8) :
    (k * 8 ||| plc) < 65536 ∧ (k * 8 ||| plc) &&& 7 = plc ∧ (k * 8 ||| plc) &&& 0xfff8 = k * 8 := by
  have hor : k * 8 ||| plc = k * 8 + plc := by
    rw [Nat.mul_comm]
    exact (Nat.two_pow_add_eq_or_of_lt (i := 3) hplc k).symm
  have hlow : (k * 8 + plc) &&& 7 = plc := by
    have := Nat.and_two_pow_sub_one_eq_mod (k * 8 + plc) 3
    norm_num at this
    rw [this]
    omega
  refine ⟨by omega, by rw [hor, hlow], ?_⟩
  have hplc0 : plc &&& 0xfff8 = 0 := by
    have : ∀ p < 8, p &&& 0xfff8 = 0 := by decide
    exact this plc hplc
  have hk' : k * 8 &&& 0xfff8 = k * 8 := by
    have hmask : (0xfff8 : Nat) = 8191 <<< 3 := rfl
    have hshift : k * 8 = k <<< 3 := by rw [Nat.shiftLeft_eq]
    rw [hmask, hshift, ← Nat.shiftLeft_and_distrib]
    have := Nat.and_two_pow_sub_one_eq_mod k 13
    norm_num at this
    rw [this, Nat.mod_eq_of_lt (by omega)]
  rw [Nat.and_or_distrib_right, hk', hplc0, Nat.or_zero]

/-- A NAT64 prefix is decoded as what it encodes, with its lifetime rounded. The lifetime in units
of eight seconds and the code of the length share one word (`word_parts`), which the decoder takes
apart again. -/
theorem Pref64.decode_encode {p : Pref64} {b : Bytes} (h : p.encode = .ok b) :
    Pref64.decode b = some p.rounded ∧ WellFormed b ∧ octet b 0 = 38 := by
  unfold Pref64.encode at h
  split at h
  · cases h
  · next plc hplc =>
    split at h
    · cases h
    · next hnormal =>
      rw [not_not] at hnormal
      obtain ⟨hlt, hget, hle⟩ := plc_cases hplc
      obtain ⟨hword, hlow, hhigh⟩ := word_parts (k := (min p.lifetime 65528 + 7) / 8) (by omega) hlt
      injection h with h
      generalize hw : ((min p.lifetime 65528 + 7) / 8 * 8 ||| plc) = word at *
      have htake : (p.prefix_.address.1.take 12).length = 12 := by
        rw [List.length_take, p.prefix_.address.2]
        rfl
      have hlen : b.length = 16 := by simp [← h, htake]
      have hb : b = [38, 2, UInt8.ofNat (word / 256), UInt8.ofNat word] ++
          p.prefix_.address.1.take 12 := by
        rw [← h, toBe_two]
        rfl
      have h0 : octet b 0 = 38 := by rw [hb]; rfl
      have h1 : octet b 1 = 2 := by rw [hb]; rfl
      have h2 : u16At b 2 = word := by
        rw [hb]
        exact ofBe_two word hword
      have hdrop : b.drop 4 = p.prefix_.address.1.take 12 := by rw [hb]; rfl
      refine ⟨?_, ⟨by omega, by rw [hlen, h1]; rfl⟩, h0⟩
      unfold Pref64.decode
      rw [if_neg (by simp [hlen, h0, h1])]
      have haddress : (⟨(b.drop 4).take 12 ++ List.replicate (16 - ((b.drop 4).take 12).length) 0,
          by simp⟩ : Ipv6Addr) = paddedAddress (p.prefix_.address.1.take 12) := by
        refine Subtype.ext ?_
        simp only [hdrop, paddedAddress, List.take_take]
        rfl
      have hnew := Prefix.new_padded hnormal (k := 12) (by decide) (by
        have := UInt8.le_iff_toNat_le.1 hle
        have h96 : (96 : UInt8).toNat = 96 := rfl
        omega)
      simp only [h2, hlow, hhigh, hget, haddress, hnew, Option.bind_eq_bind, Option.bind_some]
      rw [scaled_eq]
      rfl

/-! ## What the options tell -/

/-- What an option tells. -/
inductive Item
  | linkAddress (mac : Octets 6)
  | mtu (mtu : Nat)
  | pio (pio : Pio)
  | rio (rio : Rio)
  | resolver (address : Ipv6Addr) (lifetime : Nat)
  | pref64 (pref64 : Pref64)
  deriving DecidableEq

namespace NdOption

/-- The link-layer address of the sender. Reference: `router/owned.rs:184`. -/
def linkAddress (o : NdOption) : Option (Octets 6) :=
  if o.kind = 1 ∧ o.bytes.length = 8 then some (octetsAt o.bytes 2 6) else none

/-- The size of packets on the link. -/
def mtu (o : NdOption) : Option Nat :=
  if o.kind = 5 ∧ o.bytes.length = 8 then some (u32At o.bytes 4) else none

/-- The resolvers of an option. Reference: `router/services.rs:239`. -/
def resolvers (o : NdOption) : List (Ipv6Addr × Nat) :=
  if o.kind ≠ 25 ∨ o.bytes.length < 24 ∨ o.bytes.length % 16 ≠ 8 then []
  else (List.range ((o.bytes.length - 8) / 16)).map fun i =>
    (octetsAt o.bytes (8 + i * 16) 16, u32At o.bytes 4)

/-- What an option tells to all that read it. -/
def items (o : NdOption) : List Item :=
  o.linkAddress.toList.map .linkAddress ++ o.mtu.toList.map .mtu ++
    (Pio.decode o.bytes).toList.map .pio ++ (Rio.decode o.bytes).toList.map .rio ++
    o.resolvers.map (fun r => .resolver r.1 r.2) ++ (Pref64.decode o.bytes).toList.map .pref64

/-- An option as it stands in a message. -/
def ofBytes (b : Bytes) : NdOption := ⟨octet b 0, b⟩

end NdOption

open NdOption

/-- Only an option of this type is read as a translation prefix. -/
theorem Pref64.decode_eq_none {b : Bytes} (h : octet b 0 ≠ 38) : Pref64.decode b = none := by
  rw [Pref64.decode, if_pos (.inr (.inl h))]

/-- Each kind of option has one reader: the other readers check the type and find nothing. So the
items of an option are those of its own reader. -/
theorem items_ofBytes (b : Bytes) : (ofBytes b).items =
    if octet b 0 = 1 then (ofBytes b).linkAddress.toList.map .linkAddress
    else if octet b 0 = 5 then (ofBytes b).mtu.toList.map .mtu
    else if octet b 0 = 3 then (Pio.decode b).toList.map .pio
    else if octet b 0 = 24 then (Rio.decode b).toList.map .rio
    else if octet b 0 = 25 then (ofBytes b).resolvers.map fun r => .resolver r.1 r.2
    else (Pref64.decode b).toList.map .pref64 := by
  have hlink (h : octet b 0 ≠ 1) : (ofBytes b).linkAddress = none := if_neg fun hc => h hc.1
  have hmtu (h : octet b 0 ≠ 5) : (ofBytes b).mtu = none := if_neg fun hc => h hc.1
  have hres (h : octet b 0 ≠ 25) : (ofBytes b).resolvers = [] := if_pos (.inl h)
  have hpio (h : octet b 0 ≠ 3) : Pio.decode b = none := Advertisement.Pio.decode_eq_none h
  have hrio (h : octet b 0 ≠ 24) : Rio.decode b = none := Advertisement.Rio.decode_eq_none h
  have hpref (h : octet b 0 ≠ 38) : Pref64.decode b = none := Pref64.decode_eq_none h
  rw [items, show (ofBytes b).bytes = b from rfl]
  split
  · next h => rw [hmtu, hres, hpio, hrio, hpref] <;> simp [h]
  · next h1 =>
    rw [hlink h1]
    split
    · next h => rw [hres, hpio, hrio, hpref] <;> simp [h]
    · next h5 =>
      rw [hmtu h5]
      split
      · next h => rw [hres, hrio, hpref] <;> simp [h]
      · next h3 =>
        rw [hpio h3]
        split
        · next h => rw [hres, hpref] <;> simp [h]
        · next h24 =>
          rw [hrio h24]
          split
          · next h => rw [hpref] <;> simp [h]
          · next h25 =>
            rw [hres h25]
            simp

/-- The option of a link-layer address is read as one. -/
theorem items_linkAddress (mac : Octets 6) :
    (ofBytes ([1, 1] ++ mac.1)).items = [.linkAddress mac] := by
  have hat := octetsAt_eq (b := [1, 1] ++ mac.1) (a := [1, 1]) (c := []) mac (by simp)
  have hread : (ofBytes ([1, 1] ++ mac.1)).linkAddress = some mac := by
    rw [NdOption.linkAddress, if_pos ⟨rfl, by simp [ofBytes, mac.2]⟩]
    exact congrArg some hat
  rw [items_ofBytes, hread]
  rfl

/-- The option of an MTU is read as one. -/
theorem items_mtu {n : Nat} (h : n < 2 ^ 32) :
    (ofBytes ([5, 1, 0, 0] ++ toBe 4 n)).items = [.mtu n] := by
  have hat := u32At_eq (b := [5, 1, 0, 0] ++ toBe 4 n) (a := [5, 1, 0, 0]) (c := []) (v := n)
    (by simp)
  have hread : (ofBytes ([5, 1, 0, 0] ++ toBe 4 n)).mtu = some n := by
    rw [NdOption.mtu, if_pos ⟨rfl, by simp [ofBytes]⟩]
    exact congrArg some (hat.trans (Nat.mod_eq_of_lt h))
  rw [items_ofBytes, hread]
  rfl

/-- The option of a prefix is read as one. -/
theorem items_pio {p : Pio} (h : p.prefix_.Normal) (hp : p.preferred < 2 ^ 32)
    (hv : p.valid < 2 ^ 32) : (ofBytes p.encode).items = [.pio p] := by
  have hread : Pio.decode p.encode = some p := by
    rw [Pio.decode_encode, h, Nat.mod_eq_of_lt hp, Nat.mod_eq_of_lt hv]
    rfl
  rw [items_ofBytes, hread]
  rfl

/-- The option of a route is read as one. -/
theorem items_rio {r : Rio} (h : r.prefix_.Normal) (hl : r.lifetime < 2 ^ 32) :
    (ofBytes r.encode).items = [.rio r] := by
  rw [items_ofBytes, Rio.decode_encode h hl]
  rfl

/-- A resolver is read as it is written. The lifetime and the address stand at fixed places of the
option (`u32At_eq`, `octetsAt_eq`). -/
theorem items_resolver {r : Ipv6Addr × Nat} {b : Bytes} (hl : r.2 < 2 ^ 32)
    (h : Advertisement.resolverOption r = .ok b) :
    (ofBytes b).items = [.resolver r.1 r.2] ∧ WellFormed b := by
  unfold Advertisement.resolverOption at h
  split at h
  · cases h
  · injection h with h
    have hlen : b.length = 24 := by simp [← h, r.1.2]
    have hlife := u32At_eq (b := b) (a := [25, 3, 0, 0]) (c := r.1.1) (v := r.2) h.symm
    have haddr := octetsAt_eq (b := b) (a := [25, 3, 0, 0] ++ toBe 4 r.2) (c := []) r.1
      (by simp [← h])
    simp only [List.length_append, List.length_cons, List.length_nil, length_toBe] at hlife haddr
    have h0 : octet b 0 = 25 := by rw [← h]; rfl
    have hread : (ofBytes b).resolvers = [r] := by
      rw [NdOption.resolvers, if_neg (by simp [ofBytes, hlen, h0])]
      simp only [ofBytes, hlen, hlife, Nat.mod_eq_of_lt hl]
      simp [List.range_succ, haddr]
    have h1 : octet b 1 = 3 := by rw [← h]; rfl
    refine ⟨?_, by omega, by rw [hlen, h1]; rfl⟩
    rw [items_ofBytes, hread, h0]
    rfl

/-- The option of a translation prefix is read as one, with the lifetime that it was rounded to. -/
theorem items_pref64 {p : Pref64} {b : Bytes} (h : p.encode = .ok b) :
    (ofBytes b).items = [.pref64 p.rounded] ∧ WellFormed b := by
  obtain ⟨hread, hwf, h0⟩ := Pref64.decode_encode h
  refine ⟨?_, hwf⟩
  rw [items_ofBytes, hread, h0]
  rfl

/-! ## The order of prefixes and routes -/

section

variable {α K : Type} [OrdKey K] {f : α → K}

/-- Elements in the order of their keys. -/
def keyLe (f : α → K) (a b : α) : Bool := OrdKey.code (f a) ≤ OrdKey.code (f b)

/-- Comparing by keys is transitive. -/
theorem keyLe_trans (a b c : α) (h : keyLe f a b) (h' : keyLe f b c) : keyLe f a c := by
  simp only [keyLe, decide_eq_true_eq] at h h' ⊢
  exact h.trans h'

/-- Any two members are comparable by keys. -/
theorem keyLe_total (a b : α) : (keyLe f a b || keyLe f b a) = true := by
  simp only [keyLe, Bool.or_eq_true, decide_eq_true_eq]
  exact le_total _ _

/-- A list sorted by keys has them in order. -/
theorem pairwise_keyLe (l : List α) :
    (l.mergeSort (keyLe f)).Pairwise fun a b => OrdKey.code (f a) ≤ OrdKey.code (f b) :=
  (List.pairwise_mergeSort keyLe_trans keyLe_total l).imp fun h => by simpa [keyLe] using h

variable [DecidableEq K]

/-- Sorting keeps the first element of each key first. The sort is stable, so elements of one key
keep their order. -/
theorem find?_mergeSort_keyLe (l : List α) (k : K) :
    (l.mergeSort (keyLe f)).find? (fun a => f a = k) = l.find? fun a => f a = k := by
  have hsame : (l.filter fun a => f a = k).Pairwise fun a b => keyLe f a b := by
    refine List.pairwise_of_forall_mem_list fun a ha b hb => ?_
    have ha := (List.mem_filter.1 ha).2
    have hb := (List.mem_filter.1 hb).2
    simp only [decide_eq_true_eq] at ha hb
    simp [keyLe, ha, hb]
  have hsub := (List.sublist_mergeSort keyLe_trans keyLe_total hsame List.filter_sublist).filter
    fun a => f a = k
  rw [List.filter_filter] at hsub
  simp only [Bool.and_self] at hsub
  have hperm := (List.mergeSort_perm l (keyLe f)).filter fun a => f a = k
  rw [← List.head?_filter, ← List.head?_filter, hsub.eq_of_length hperm.length_eq.symm]

namespace Advertisement

variable [LawfulOrdKey K]

/-- What is kept after an element has a greater key, and is the first one with its key. By induction
on the sorted list. -/
theorem mem_dedupAfter_iff {a x : α} {l : List α}
    (h : (a :: l).Pairwise fun b c => OrdKey.code (f b) ≤ OrdKey.code (f c)) :
    x ∈ dedupBy.dedupAfter f a l ↔ f x ≠ f a ∧ l.find? (fun b => f b = f x) = some x := by
  induction l generalizing a with
  | nil => simp [dedupBy.dedupAfter]
  | cons b l ih =>
    obtain ⟨hab, hbl⟩ := List.pairwise_cons.1 h
    have hle := hab b List.mem_cons_self
    rw [dedupBy.dedupAfter]
    split
    · next hkey =>
      rw [ih (h.sublist (.cons_cons a (List.sublist_cons_self b l)))]
      refine and_congr_right fun hne => ?_
      rw [List.find?_cons_of_neg (by simpa [hkey] using Ne.symm hne)]
    · next hkey =>
      rw [List.mem_cons, ih hbl]
      by_cases hx : f b = f x
      · rw [List.find?_cons_of_pos (by simpa using hx), Option.some_inj, ← hx]
        simp [hkey, eq_comm]
      · rw [List.find?_cons_of_neg (by simpa using hx)]
        constructor
        · rintro (rfl | ⟨-, hfind⟩)
          · exact absurd rfl hx
          · refine ⟨fun hxa => hkey (LawfulOrdKey.code_inj (le_antisymm ?_ hle)), hfind⟩
            rw [← hxa]
            exact List.rel_of_pairwise_cons hbl (List.mem_of_find?_eq_some hfind)
        · rintro ⟨-, hfind⟩
          exact .inr ⟨Ne.symm hx, hfind⟩

/-- Of each key the first element is kept. The list is sorted by the keys, so equal ones stand next
to each other. -/
theorem mem_dedupBy_iff {x : α} {l : List α}
    (h : l.Pairwise fun b c => OrdKey.code (f b) ≤ OrdKey.code (f c)) :
    x ∈ dedupBy f l ↔ l.find? (fun b => f b = f x) = some x := by
  cases l with
  | nil => simp [dedupBy]
  | cons a l =>
    rw [dedupBy, List.mem_cons, mem_dedupAfter_iff h]
    by_cases hx : f a = f x
    · rw [List.find?_cons_of_pos (by simpa using hx), Option.some_inj]
      simp [hx, eq_comm]
    · rw [List.find?_cons_of_neg (by simpa using hx)]
      constructor
      · rintro (rfl | ⟨-, hfind⟩)
        · exact absurd rfl hx
        · exact hfind
      · exact fun hfind => .inr ⟨Ne.symm hx, hfind⟩

/-- The keys of what is kept grow. By induction on the sorted list, in which an equal key is passed
over. -/
theorem pairwise_dedupAfter {a : α} {l : List α}
    (h : (a :: l).Pairwise fun b c => OrdKey.code (f b) ≤ OrdKey.code (f c)) :
    (a :: dedupBy.dedupAfter f a l).Pairwise fun b c => OrdKey.code (f b) < OrdKey.code (f c) := by
  induction l generalizing a with
  | nil => simp [dedupBy.dedupAfter]
  | cons b l ih =>
    obtain ⟨hab, hbl⟩ := List.pairwise_cons.1 h
    rw [dedupBy.dedupAfter]
    split
    · exact ih (h.sublist (.cons_cons a (List.sublist_cons_self b l)))
    · next hkey =>
      have hlt : OrdKey.code (f a) < OrdKey.code (f b) :=
        lt_of_le_of_ne (hab b List.mem_cons_self) fun heq => hkey (LawfulOrdKey.code_inj heq).symm
      have htail := ih hbl
      refine htail.cons fun c hc => ?_
      rcases List.mem_cons.1 hc with rfl | hc
      · exact hlt
      · exact hlt.trans (List.rel_of_pairwise_cons htail hc)

/-- Without duplicates the keys strictly increase. -/
theorem pairwise_dedupBy {l : List α}
    (h : l.Pairwise fun b c => OrdKey.code (f b) ≤ OrdKey.code (f c)) :
    (dedupBy f l).Pairwise fun b c => OrdKey.code (f b) < OrdKey.code (f c) := by
  cases l with
  | nil => exact .nil
  | cons a l => exact pairwise_dedupAfter h

end Advertisement

end

namespace Advertisement

variable {ad : Advertisement}

/-- Sorting the prefixes neither adds nor removes any. -/
theorem sortedPios_perm : ad.sortedPios.Perm ad.pios := List.mergeSort_perm _ _

/-- The prefixes are sent in order. -/
theorem sortedPios_pairwise :
    ad.sortedPios.Pairwise fun p q => OrdKey.code p.prefix_ ≤ OrdKey.code q.prefix_ :=
  pairwise_keyLe (f := Pio.prefix_) ad.pios

/-- The routes are sent in order, none of them twice. -/
theorem sortedRios_pairwise :
    ad.sortedRios.Pairwise fun p q => OrdKey.code p.prefix_ < OrdKey.code q.prefix_ :=
  pairwise_dedupBy (pairwise_keyLe ad.rios)

/-- Of each prefix the first route is sent. -/
theorem mem_sortedRios_iff {r : Rio} :
    r ∈ ad.sortedRios ↔ ad.rios.find? (fun x => x.prefix_ = r.prefix_) = some r := by
  rw [← find?_mergeSort_keyLe]
  exact mem_dedupBy_iff (pairwise_keyLe ad.rios)

/-! ## Messages -/

/-- What an advertisement tells, in the order of the message. -/
def items (ad : Advertisement) (resolvers : List (Ipv6Addr × Nat)) (pref64 : List Pref64) :
    List Item :=
  ad.mac.toList.map .linkAddress ++ (if ad.link = .ail then [] else [.mtu ad.mtu]) ++
    ad.sortedPios.map .pio ++ ad.sortedRios.map .rio ++
    resolvers.map (fun r => .resolver r.1 r.2) ++ pref64.map fun p => .pref64 p.rounded

/-- An advertisement whose prefixes have no host bits, with numbers of the sizes that the options
have for them. -/
structure Fits (ad : Advertisement) (resolvers : List (Ipv6Addr × Nat)) : Prop where
  mtu : ad.mtu < 2 ^ 32
  pios : ∀ p ∈ ad.pios, p.prefix_.Normal ∧ p.preferred < 2 ^ 32 ∧ p.valid < 2 ^ 32
  rios : ∀ r ∈ ad.rios, r.prefix_.Normal ∧ r.lifetime < 2 ^ 32
  resolvers : ∀ r ∈ resolvers, r.2 < 2 ^ 32

/-- The options of the advertisement itself are read as they are written: the link address, the MTU
on the stub link, and the sorted prefixes and routes. -/
theorem flatMap_ownOptions {resolvers : List (Ipv6Addr × Nat)} (h : ad.Fits resolvers) :
    ad.ownOptions.flatMap (fun o => (ofBytes o).items) =
      ad.mac.toList.map .linkAddress ++ (if ad.link = .ail then [] else [.mtu ad.mtu]) ++
        ad.sortedPios.map .pio ++ ad.sortedRios.map .rio := by
  have hlink : ad.linkOptions.flatMap (fun o => (ofBytes o).items) =
      ad.mac.toList.map .linkAddress ++ if ad.link = .ail then [] else [.mtu ad.mtu] := by
    rw [linkOptions, List.flatMap_append]
    congr 1
    · cases ad.mac with
      | none => rfl
      | some mac => simpa using items_linkAddress mac
    · split
      · rfl
      · simpa using items_mtu h.mtu
  have hpios : (ad.sortedPios.map Pio.encode).flatMap (fun o => (ofBytes o).items) =
      ad.sortedPios.map .pio := by
    rw [List.flatMap_map, List.map_eq_flatMap]
    refine List.flatMap_congr fun p hp => ?_
    obtain ⟨hn, hpref, hvalid⟩ := h.pios p (mem_sortedPios.1 hp)
    exact items_pio hn hpref hvalid
  have hrios : (ad.sortedRios.map Rio.encode).flatMap (fun o => (ofBytes o).items) =
      ad.sortedRios.map .rio := by
    rw [List.flatMap_map, List.map_eq_flatMap]
    refine List.flatMap_congr fun r hr => ?_
    obtain ⟨hn, hlife⟩ := h.rios r (mem_of_mem_sortedRios hr)
    exact items_rio hn hlife
  rw [ownOptions_eq, List.flatMap_append, List.flatMap_append, hlink, hpios, hrios]

/-- Options that are written one after another are read so. By induction on the list, with the
reading of one option as the hypothesis. -/
theorem flatMap_mapM {α : Type} {f : α → Except WireError Bytes} {g : α → Item} {l : List α}
    {os : List Bytes} (h : l.mapM f = .ok os)
    (hf : ∀ a ∈ l, ∀ b, f a = .ok b → (ofBytes b).items = [g a] ∧ WellFormed b) :
    os.flatMap (fun o => (ofBytes o).items) = l.map g ∧ ∀ o ∈ os, WellFormed o := by
  induction l generalizing os with
  | nil =>
    cases h
    exact ⟨rfl, fun o ho => nomatch ho⟩
  | cons a l ih =>
    rw [List.mapM_cons] at h
    cases hb : f a with
    | error e =>
      rw [hb] at h
      cases h
    | ok b =>
      cases hrest : l.mapM f with
      | error e =>
        rw [hb, hrest] at h
        cases h
      | ok rest =>
        rw [hb, hrest] at h
        cases h
        obtain ⟨hitem, hwf⟩ := hf a List.mem_cons_self b hb
        obtain ⟨hitems, hwfs⟩ := ih hrest fun x hx => hf x (List.mem_cons_of_mem _ hx)
        refine ⟨?_, List.forall_mem_cons.2 ⟨hwf, hwfs⟩⟩
        rw [List.flatMap_cons, hitem, hitems]
        rfl

/-- Flags that are set do not clear others. -/
theorem or_and_cancel (a x : UInt8) : (a ||| x) &&& a = a := by
  refine UInt8.toNat_inj.1 (Nat.eq_of_testBit_eq fun i => ?_)
  simp only [UInt8.toNat_and, UInt8.toNat_or, Nat.testBit_and, Nat.testBit_or]
  cases Nat.testBit a.toNat i <;> simp

/-- An ICMP packet is as long as its body and an IPv6 header. -/
theorem length_icmpPacket {source destination : Ipv6Addr} {hop : UInt8} {body b : Bytes}
    (hlong : 4 ≤ body.length) (h : icmpPacket source destination hop body = .ok b) :
    b.length = 40 + body.length := by
  rw [icmpPacket_eq hlong] at h
  unfold ipv6Packet at h
  split at h
  · cases h
  · injection h with h
    rw [← h]
    simp [length_filled hlong, source.2, destination.2]
    omega

/-- A packet that is sent has its parts: the options of the router, the resolvers and the NAT64
prefixes were all encoded, the source is link-local, and the packet is within the minimum MTU. -/
theorem encodeServices_parts {resolvers : List (Ipv6Addr × Nat)} {pref64 : List Pref64} {b : Bytes}
    (h : ad.encodeServices resolvers pref64 = .ok b) : ad.source.linkLocal = true ∧
      ∃ dns nat, resolvers.mapM resolverOption = .ok dns ∧ pref64.mapM Pref64.encode = .ok nat ∧
        (ad.header ++ (ad.ownOptions ++ dns ++ nat).flatten).length + 40 ≤ 1280 ∧
        icmpPacket ad.source ad.destination 255
          (ad.header ++ (ad.ownOptions ++ dns ++ nat).flatten) = .ok b := by
  unfold encodeServices at h
  split at h
  · cases h
  · split at h
    · cases h
    · split at h
      · cases h
      · next hs =>
        have hlocal : ad.source.linkLocal = true := by
          by_contra hne
          exact hs (.inr (by simpa using hne))
        refine ⟨hlocal, ?_⟩
        cases hdns : resolvers.mapM resolverOption with
        | error e =>
          rw [hdns] at h
          cases h
        | ok dns =>
          cases hnat : pref64.mapM Pref64.encode with
          | error e =>
            rw [hdns, hnat] at h
            cases h
          | ok nat =>
            rw [hdns, hnat] at h
            simp only [bind, Except.bind] at h
            have hassoc : ad.header ++ ad.ownOptions.flatten ++ dns.flatten ++ nat.flatten =
                ad.header ++ (ad.ownOptions ++ dns ++ nat).flatten := by simp
            rw [hassoc] at h
            split at h
            · cases h
            · next hle => exact ⟨dns, nat, rfl, rfl, Nat.le_of_not_lt hle, h⟩

/-- An advertisement is at most as long as the smallest packet size of a link, is accepted, and its
options tell what was given, in order. -/
theorem encodeServices_decode {resolvers : List (Ipv6Addr × Nat)} {pref64 : List Pref64} {b : Bytes}
    (hfits : ad.Fits resolvers) (h : ad.encodeServices resolvers pref64 = .ok b) :
    b.length ≤ 1280 ∧
      (∃ e nd, envelope .rawIpv6 b = .ok e ∧ e.source = ad.source ∧ e.destination = ad.destination ∧
        decodeNd e = .ok nd ∧ nd.kind = 134 ∧ checksum6 e.source e.destination 58 nd.body = 0 ∧
        nd.options.flatMap NdOption.items = ad.items resolvers pref64 ∧
        (octet nd.body 5 &&& 2 ≠ 0 ↔ ad.link = .ail) ∧ (ad.link = .ail → u16At nd.body 6 = 0)) ∧
      ad.sortedPios.Perm ad.pios ∧
      (ad.sortedPios.Pairwise fun p q => OrdKey.code p.prefix_ ≤ OrdKey.code q.prefix_) ∧
      (ad.sortedRios.Pairwise fun r s => OrdKey.code r.prefix_ < OrdKey.code s.prefix_) ∧
      ∀ r, r ∈ ad.sortedRios ↔ ad.rios.find? (fun x => x.prefix_ = r.prefix_) = some r := by
  obtain ⟨hlocal, dns, nat, hdns, hnat, hlen, hpacket⟩ := encodeServices_parts h
  obtain ⟨hditems, hdwf⟩ := flatMap_mapM (g := fun r => .resolver r.1 r.2) hdns
    fun r hr o ho => items_resolver (hfits.resolvers r hr) ho
  obtain ⟨hnitems, hnwf⟩ := flatMap_mapM (g := fun p => .pref64 p.rounded) hnat
    fun p _ o ho => items_pref64 ho
  have hwf : ∀ o ∈ ad.ownOptions ++ dns ++ nat, WellFormed o := by
    intro o ho
    rcases List.mem_append.1 ho with ho | ho
    · rcases List.mem_append.1 ho with ho | ho
      · exact wellFormed_ownOptions ho
      · exact hdwf o ho
    · exact hnwf o ho
  have hlong : 4 ≤ (ad.header ++ (ad.ownOptions ++ dns ++ nat).flatten).length := by
    simp [header]
  obtain ⟨e, he, hsrc, hdst, hnd⟩ := decodeNd_ra hpacket (by simp [header]) rfl rfl hlocal hwf
  refine ⟨?_, ⟨e, _, he, hsrc, hdst, hnd, rfl, ?_, ?_, ?_, ?_⟩, sortedPios_perm,
    sortedPios_pairwise, sortedRios_pairwise, fun r => mem_sortedRios_iff⟩
  · rw [length_icmpPacket hlong hpacket]
    omega
  · rw [hsrc, hdst]
    exact checksum6_filled hlong
  · rw [List.flatMap_map, items, ← hditems, ← hnitems, ← flatMap_ownOptions hfits,
      ← List.flatMap_append, ← List.flatMap_append]
    rfl
  · rw [octet_filled hlong (by omega), octet_append_left _ (by simp [header])]
    by_cases hl : ad.link = .ail
    · have hset : octet ad.header 5 &&& 2 = 2 := by
        simp only [header, hl, if_true]
        exact or_and_cancel _ _
      simp [hset, hl]
    · simp [header, hl, octet]
  · intro hl
    rw [u16At, octet_filled hlong (by omega), octet_filled hlong (by omega),
      octet_append_left _ (by simp [header]), octet_append_left _ (by simp [header])]
    have h6 : octet ad.header 6 = 0 := by
      simp only [header, hl, if_true, toBe_two]
      rfl
    have h7 : octet ad.header 7 = 0 := by
      simp only [header, hl, if_true, toBe_two]
      rfl
    rw [h6, h7]
    decide

/-- An advertisement to the stub link with two routes for one prefix. -/
def stubSample : Advertisement where
  link := .stub
  source := ⟨[0xfe, 0x80, 0, 0, 0, 0, 0, 0, 0, 0, 0, 0, 0, 0, 0, 1], rfl⟩
  destination := ⟨[0xff, 2, 0, 0, 0, 0, 0, 0, 0, 0, 0, 0, 0, 0, 0, 1], rfl⟩
  mac := some ⟨[2, 0, 0, 0, 0, 1], rfl⟩
  mtu := 1280
  mo := 0
  defaultLifetime := 0
  pios := [⟨⟨⟨[0xfd, 1, 0, 0, 0, 0, 0, 0, 0, 0, 0, 0, 0, 0, 0, 0], rfl⟩, 64⟩, 0xc0, 1800, 1800⟩]
  rios := [⟨⟨⟨[0xfd, 2, 0, 0, 0, 0, 0, 0, 0, 0, 0, 0, 0, 0, 0, 0], rfl⟩, 64⟩, .medium, 1800⟩,
    ⟨⟨⟨[0xfd, 2, 0, 0, 0, 0, 0, 0, 0, 0, 0, 0, 0, 0, 0, 0], rfl⟩, 64⟩, .low, 600⟩]

/-- The theorem applied to the advertisement of a stub router, with a resolver and a NAT64 prefix.
The prefixes of the sample are sorted already, so that encoding it is evaluated. -/
theorem encodeServices_decode_stub : ∃ b, stubSample.encodeServices
    [(⟨[0xfd, 1, 0, 0, 0, 0, 0, 0, 0, 0, 0, 0, 0, 0, 0, 1], rfl⟩, 1800)]
    [⟨⟨⟨[0, 0x64, 0xff, 0x9b, 0, 0, 0, 0, 0, 0, 0, 0, 0, 0, 0, 0], rfl⟩, 96⟩, 1801⟩] = .ok b ∧
    b.length ≤ 1280 := by
  have hpios : stubSample.pios.mergeSort (fun a b => prefixLe a.prefix_ b.prefix_) =
      stubSample.pios := List.mergeSort_of_pairwise (by decide)
  have hrios : stubSample.rios.mergeSort (fun a b => prefixLe a.prefix_ b.prefix_) =
      stubSample.rios := List.mergeSort_of_pairwise (by decide)
  have hok : (stubSample.encodeServices
      [(⟨[0xfd, 1, 0, 0, 0, 0, 0, 0, 0, 0, 0, 0, 0, 0, 0, 1], rfl⟩, 1800)]
      [⟨⟨⟨[0, 0x64, 0xff, 0x9b, 0, 0, 0, 0, 0, 0, 0, 0, 0, 0, 0, 0], rfl⟩, 96⟩, 1801⟩]).isOk =
        true := by
    rw [encodeServices, ownOptions, hpios, hrios]
    decide +kernel
  cases h : stubSample.encodeServices
      [(⟨[0xfd, 1, 0, 0, 0, 0, 0, 0, 0, 0, 0, 0, 0, 0, 0, 1], rfl⟩, 1800)]
      [⟨⟨⟨[0, 0x64, 0xff, 0x9b, 0, 0, 0, 0, 0, 0, 0, 0, 0, 0, 0, 0], rfl⟩, 96⟩, 1801⟩] with
  | error e =>
    rw [h] at hok
    cases hok
  | ok b =>
    exact ⟨b, rfl, (encodeServices_decode ⟨by decide, by decide, by decide, by decide⟩ h).1⟩

end Advertisement

end SnacMachine.Ip
