import Mathlib.Data.Finset.Card
import SnacMachine.Discovery.Denial

/-!
# The limits of a denial

When a denial can be given (`Zone::denial`, `discovery_proxy.rs:170`): the records of the name are
few enough, their bitmaps are well formed and not too long in all, and there is room for the types
(`Zone.denial_ok_iff`). Peers on the link choose the records and their bitmaps.
-/

namespace SnacMachine.Discovery

open Dns Mdns

/-! ## Bitmaps -/

/-- The types of a bitmap. -/
def bitmapTypes (b : Bytes) : List UInt16 := (typesRead b).toOption.getD []

section
variable {σ : Type} {add : σ → UInt16 → Except IoError σ} {b : Bytes} {s s' : σ}

/-- Only a valid bitmap is read to its end, whatever is done with its types. By induction on the
fuel: both loops make the same checks of each window. -/
theorem bitmapLoop_of_readLoop {fuel : Nat} {previous : Option UInt8}
    (h : readLoop add fuel previous b s = .ok s') : bitmapLoop fuel previous b = true := by
  induction fuel generalizing previous b s with
  | zero =>
    match b, h with
    | [], _ => rfl
    | [_], h => cases h
    | _ :: _ :: _, h => cases h
  | succ fuel ih =>
    match b, h with
    | [], _ => rfl
    | [_], h => cases h
    | w :: n :: rest, h =>
      rw [readLoop] at h
      split at h
      · cases h
      · next hcond =>
        split at h
        · cases h
        · next hlen =>
          split at h
          · cases h
          · next hlast =>
            obtain ⟨s₁, -, h⟩ := exceptBind_ok h
            simp only [not_or] at hcond
            rw [bitmapLoop, if_neg (by
              simp only [not_or]
              exact ⟨hcond.1, hcond.2.1, hcond.2.2, hlen⟩), if_neg hlast]
            exact ih h

/-- A bitmap is read if it is valid and each of its types is taken, in order. -/
theorem readBitmap_eq_ok : readBitmap b add s = .ok s' ↔
    bitmapValid b = true ∧ (bitmapTypes b).foldlM add s = .ok s' := by
  by_cases hvalid : bitmapValid b = true
  · obtain ⟨ws, hws, hafter, rfl⟩ := exists_windows hvalid
    have htypes : bitmapTypes (Windows.wire ws) = (Windows.members ws).map UInt16.ofNat := by
      rw [bitmapTypes, typesRead, readBitmap, readLoop_wire _ hws hafter (Nat.le_refl _),
        foldlM_push]
      rfl
    rw [and_iff_right hvalid, htypes, readBitmap,
      readLoop_wire _ hws hafter (Nat.le_refl _)]
  · exact iff_of_false (fun h => hvalid (bitmapLoop_of_readLoop h)) fun h => hvalid h.1

end

/-! ## Types -/

/-- A map has the types of a set. -/
def Lists (types : OrdMap UInt16 Unit) (s : Finset UInt16) : Prop :=
  ∀ k, types.contains k = true ↔ k ∈ s

section
variable {types t : OrdMap UInt16 Unit} {s : Finset UInt16} {k : UInt16}

/-- No types are listed at first. -/
theorem Lists.empty : Lists .empty ∅ := fun k => by
  simp [OrdMap.contains]

/-- There are as many types as the set has members. -/
theorem Lists.size (h : Lists types s) : types.size = s.card := by
  rw [← Finset.length_toList s]
  refine OrdMap.size_eq_length s.nodup_toList fun k => ?_
  rw [Finset.mem_toList, ← h k, OrdMap.contains_iff]

/-- A type is added to the list and to the set. -/
theorem Lists.insert (h : Lists types s) : Lists (types.insert k ()) (insert k s) := by
  intro k'
  rw [OrdMap.contains_iff, OrdMap.get_insert_eq, Finset.mem_insert, ← h k', OrdMap.contains_iff]
  by_cases hk : k = k'
  · subst hk
    simp
  · simp [hk, Ne.symm hk]

/-- A type is taken from the list and from the set. -/
theorem Lists.remove (h : Lists types s) (k : UInt16) : Lists (types.remove k) (s.erase k) := by
  intro k'
  rw [OrdMap.contains_iff, OrdMap.get_remove_eq, Finset.mem_erase, ← h k', OrdMap.contains_iff]
  by_cases hk : k' = k
  · simp [hk]
  · simp [hk]

/-- A type is inserted if there is room for it. A type that is there already needs none, so the
limit is one on the set with the type inserted. -/
theorem insertType_eq_ok (h : Lists types s) (hs : s.card ≤ 1024) : insertType types k = .ok t ↔
    (insert k s).card ≤ 1024 ∧ t = types.insert k () := by
  have hsize := h.size
  unfold insertType
  cases hk : types.contains k with
  | true =>
    rw [if_neg (by simp), Finset.insert_eq_of_mem ((h k).1 hk)]
    simp [hs, eq_comm]
  | false =>
    have hnot : k ∉ s := fun hmem => by rw [(h k).2 hmem] at hk; cases hk
    rw [Finset.card_insert_of_notMem hnot]
    split
    · next hfull =>
      have : s.card = 1024 := hsize ▸ hfull.1
      simp [this]
    · next hroom =>
      have : s.card ≠ 1024 := fun hfull => hroom ⟨hsize.trans hfull, rfl⟩
      have hle : s.card + 1 ≤ 1024 := by omega
      simp [hle, eq_comm]

/-- Types are inserted one after the other if there is room for all. By induction on the types: the
set of types only grows, so that a failure on the way means that the whole set is too large. -/
theorem insertTypes_ok {l : List UInt16} (h : Lists types s) (hs : s.card ≤ 1024) :
    ((∃ t, l.foldlM insertType types = .ok t) ↔ (s ∪ l.toFinset).card ≤ 1024) ∧
      ∀ t, l.foldlM insertType types = .ok t → Lists t (s ∪ l.toFinset) := by
  induction l generalizing types s with
  | nil =>
    refine ⟨iff_of_true ⟨types, rfl⟩ (by simpa using hs), ?_⟩
    intro t ht
    cases ht
    simpa using h
  | cons k l ih =>
    have hunion : s ∪ (k :: l).toFinset = insert k s ∪ l.toFinset := by
      rw [List.toFinset_cons, Finset.union_insert, Finset.insert_union]
    rw [hunion]
    have hmono : (insert k s).card ≤ (insert k s ∪ l.toFinset).card :=
      Finset.card_le_card Finset.subset_union_left
    by_cases hroom : (insert k s).card ≤ 1024
    · have hins := (insertType_eq_ok h hs).2 ⟨hroom, rfl⟩
      have hcons : (k :: l).foldlM insertType types = l.foldlM insertType (types.insert k ()) := by
        rw [List.foldlM_cons, hins]
        rfl
      rw [hcons]
      exact ih h.insert hroom
    · have herr : ∀ t, ¬ (k :: l).foldlM insertType types = .ok t := by
        intro t ht
        rw [List.foldlM_cons] at ht
        obtain ⟨t₁, ht₁, -⟩ := exceptBind_ok ht
        exact hroom ((insertType_eq_ok h hs).1 ht₁).1
      exact ⟨iff_of_false (fun ⟨t, ht⟩ => herr t ht) (by omega), fun t ht => absurd ht (herr t)⟩

end

/-! ## Gathering -/

/-- The bitmap of a record, if it has one. -/
def bitmapOf (r : Record) : Option Bytes :=
  match r.data with
  | .nsec _ bitmap => some bitmap
  | _ => none

/-- The types that a record brings into a denial. -/
def listedTypes (apex : Bool) (r : Record) : List UInt16 :=
  ((bitmapOf r).elim [r.kind] bitmapTypes).filter (acceptedType apex)

/-- The work that a record is: one, and the octets of its bitmap. -/
def workOf (r : Record) : Nat := 1 + (bitmapOf r).elim 0 List.length

/-- The bitmaps among some records are valid, and the work up to each of them is bounded. -/
def Within (work : Nat) (rs : List Record) : Prop :=
  ∀ before r after, rs = before ++ r :: after → ∀ b, bitmapOf r = some b →
    bitmapValid b = true ∧ work + (before.map workOf).sum + workOf r ≤ 262144

/-- Records are within the limits if the first one is, and the others are with the work that it
adds. -/
theorem within_cons {work : Nat} {r : Record} {rs : List Record} : Within work (r :: rs) ↔
    (∀ b, bitmapOf r = some b → bitmapValid b = true ∧ work + workOf r ≤ 262144) ∧
      Within (work + workOf r) rs := by
  constructor
  · intro h
    refine ⟨fun b hb => h [] r rs rfl b hb, fun before r' after heq b hb => ?_⟩
    have hr := h (r :: before) r' after (by rw [heq]; rfl) b hb
    rw [List.map_cons, List.sum_cons, ← Nat.add_assoc] at hr
    exact hr
  · rintro ⟨hr, hrs⟩ before r' after heq b hb
    cases before with
    | nil =>
      cases heq
      exact hr b hb
    | cons x before =>
      cases heq
      have hr' := hrs before r' after rfl b hb
      rw [List.map_cons, List.sum_cons, ← Nat.add_assoc]
      exact hr'

/-- What has been gathered with one record more, whose types are in. -/
def Gathered.note (g : Gathered) (reach : Reachability) (r : Record) (types : OrdMap UInt16 Unit) :
    Gathered where
  types := types
  work := g.work + workOf r
  seen := (g.seen.1 || r.kind == 1, g.seen.2 || r.kind == 28)
  reachable := (g.reachable.1 || (r.kind == 1 && usable r reach),
    g.reachable.2 || (r.kind == 28 && usable r reach))

section
variable {apex : Bool} {reach : Reachability} {g g' : Gathered} {r : Record}

/-- Types that are not accepted are passed over. By induction on the types, with the two cases of
the test. -/
theorem foldlM_accepted {l : List UInt16} {types : OrdMap UInt16 Unit} :
    l.foldlM (fun types k => if acceptedType apex k then insertType types k else .ok types) types =
      (l.filter (acceptedType apex)).foldlM insertType types := by
  induction l generalizing types with
  | nil => rfl
  | cons k l ih =>
    rw [List.foldlM_cons]
    cases hk : acceptedType apex k with
    | true =>
      rw [List.filter_cons_of_pos hk, List.foldlM_cons, if_pos rfl]
      exact bind_congr fun _ => ih
    | false =>
      rw [List.filter_cons_of_neg (by simp [hk]), if_neg (by decide)]
      exact ih

/-- What gathering a record notes about it: which family of addresses it is of, and whether it can
be used. -/
theorem note_eq {types : OrdMap UInt16 Unit} {work : Nat} (hwork : work = g.work + workOf r) :
    (if r.kind = 1 then (⟨types, work, (true, g.seen.2),
        (g.reachable.1 || usable r reach, g.reachable.2)⟩ : Gathered)
      else if r.kind = 28 then ⟨types, work, (g.seen.1, true),
        (g.reachable.1, g.reachable.2 || usable r reach)⟩
      else ⟨types, work, g.seen, g.reachable⟩) = g.note reach r types := by
  subst hwork
  unfold Gathered.note
  by_cases h1 : r.kind = 1
  · have h28 : r.kind ≠ 28 := by rw [h1]; decide
    simp [h1]
  · by_cases h28 : r.kind = 28
    · simp [h28]
    · have h1' : (r.kind == 1) = false := beq_eq_false_iff_ne.2 h1
      have h28' : (r.kind == 28) = false := beq_eq_false_iff_ne.2 h28
      rw [if_neg h1, if_neg h28, h1', h28']
      simp

/-- The types and the work of what is gathered with one record more. -/
def gatherTypes (apex : Bool) (g : Gathered) (r : Record) :
    Except IoError (OrdMap UInt16 Unit × Nat) :=
  (bitmapOf r).elim
    ((if acceptedType apex r.kind then insertType g.types r.kind else .ok g.types) >>=
      fun types => .ok (types, g.work + 1))
    fun bitmap =>
      if g.work + 1 + bitmap.length > 262144 then .error invalid
      else readBitmap bitmap (fun types k =>
          if acceptedType apex k then insertType types k else .ok types) g.types >>=
        fun types => .ok (types, g.work + 1 + bitmap.length)

/-- Gathering a record gathers its types, and then notes what kind of record it is. One case for
each form of data, of which only those of denials hold types. -/
theorem gather_eq (apex : Bool) (reach : Reachability) (g : Gathered) (r : Record) :
    gather apex reach g r = gatherTypes apex g r >>= fun p =>
      .ok (if r.kind = 1 then ⟨p.1, p.2, (true, g.seen.2),
          (g.reachable.1 || usable r reach, g.reachable.2)⟩
        else if r.kind = 28 then ⟨p.1, p.2, (g.seen.1, true),
          (g.reachable.1, g.reachable.2 || usable r reach)⟩
        else ⟨p.1, p.2, g.seen, g.reachable⟩) := by
  unfold gather gatherTypes bitmapOf
  cases r.data with
  | nsec next bitmap =>
    by_cases hlong : g.work + 1 + bitmap.length > 262144
    · simp only [if_pos hlong, Option.elim_some]
    · simp only [if_neg hlong, Option.elim_some]
      generalize readBitmap bitmap _ g.types = x
      cases x <;> rfl
  | _ =>
    simp only [Option.elim_none]
    split
    · generalize insertType g.types r.kind = x
      cases x <;> rfl
    · rfl

/-- The types of a record are gathered if its bitmap keeps to the limits and there is room for
them. -/
theorem gatherTypes_eq_ok {types : OrdMap UInt16 Unit} {work : Nat} :
    gatherTypes apex g r = .ok (types, work) ↔
      (∀ b, bitmapOf r = some b → bitmapValid b = true ∧ g.work + workOf r ≤ 262144) ∧
        (listedTypes apex r).foldlM insertType g.types = .ok types ∧ work = g.work + workOf r := by
  unfold gatherTypes listedTypes workOf
  cases bitmapOf r with
  | some bitmap =>
    simp only [Option.elim_some]
    rw [← foldlM_accepted, ← Nat.add_assoc]
    constructor
    · intro h
      split at h
      · cases h
      · next hle =>
        obtain ⟨types', htypes, h⟩ := exceptBind_ok h
        cases h
        obtain ⟨hvalid, htypes⟩ := readBitmap_eq_ok.1 htypes
        refine ⟨fun b hb => ?_, htypes, rfl⟩
        cases hb
        exact ⟨hvalid, by omega⟩
    · rintro ⟨hlimits, htypes, rfl⟩
      obtain ⟨hvalid, hle⟩ := hlimits bitmap rfl
      rw [if_neg (by omega), readBitmap_eq_ok.2 ⟨hvalid, htypes⟩]
      rfl
  | none =>
    simp only [Option.elim_none]
    have hlisted : ([r.kind].filter (acceptedType apex)).foldlM insertType g.types =
        if acceptedType apex r.kind then insertType g.types r.kind else .ok g.types := by
      rw [← foldlM_accepted, List.foldlM_cons]
      simp
    rw [hlisted]
    constructor
    · intro h
      obtain ⟨types', htypes, h⟩ := exceptBind_ok h
      cases h
      exact ⟨fun b hb => absurd hb (Option.some_ne_none b).symm, htypes, rfl⟩
    · rintro ⟨-, htypes, rfl⟩
      rw [htypes]
      rfl

/-- A record is gathered if its bitmap keeps to the limits and there is room for its types. Both
parts of `gather_eq` are spelled out, and the types are inserted one after the other. -/
theorem gather_eq_ok : gather apex reach g r = .ok g' ↔
    (∀ b, bitmapOf r = some b → bitmapValid b = true ∧ g.work + workOf r ≤ 262144) ∧
      ∃ types, (listedTypes apex r).foldlM insertType g.types = .ok types ∧
        g' = g.note reach r types := by
  rw [gather_eq]
  constructor
  · intro h
    obtain ⟨p, hp, hg⟩ := exceptBind_ok h
    obtain ⟨hlimits, htypes, hwork⟩ := gatherTypes_eq_ok.1 hp
    rw [note_eq hwork] at hg
    exact ⟨hlimits, p.1, htypes, (Except.ok.inj hg).symm⟩
  · rintro ⟨hlimits, types, htypes, rfl⟩
    rw [gatherTypes_eq_ok.2 ⟨hlimits, htypes, rfl⟩, ← note_eq rfl]
    rfl

/-- Records are gathered if their bitmaps keep to the limits and there is room for all of their
types. -/
theorem gatherAll_eq_ok {rs : List Record} : rs.foldlM (gather apex reach) g = .ok g' ↔
    Within g.work rs ∧ (rs.flatMap (listedTypes apex)).foldlM insertType g.types = .ok g'.types ∧
      g'.work = g.work + (rs.map workOf).sum ∧
      g'.seen = (g.seen.1 || rs.any fun r => r.kind == 1, g.seen.2 ||
        rs.any fun r => r.kind == 28) ∧
      g'.reachable = (g.reachable.1 || rs.any fun r => r.kind == 1 && usable r reach,
        g.reachable.2 || rs.any fun r => r.kind == 28 && usable r reach) := by
  induction rs generalizing g with
  | nil =>
    have hnil : Within g.work [] := fun before r after heq => absurd heq (by simp)
    obtain ⟨types, work, seen, reachable⟩ := g
    obtain ⟨types', work', seen', reachable'⟩ := g'
    simp [pure, Except.pure, hnil, eq_comm]
  | cons r rs ih =>
    rw [List.foldlM_cons, within_cons, List.flatMap_cons, List.foldlM_append, List.map_cons,
      List.sum_cons, List.any_cons, List.any_cons, List.any_cons, List.any_cons]
    constructor
    · intro h
      obtain ⟨g₁, hg₁, hrest⟩ := exceptBind_ok h
      obtain ⟨hr, types, htypes, rfl⟩ := gather_eq_ok.1 hg₁
      obtain ⟨hwithin, hall, hwork, hseen, hreachable⟩ := ih.1 hrest
      refine ⟨⟨hr, hwithin⟩, ?_, ?_, ?_, ?_⟩
      · rw [htypes]
        exact hall
      · rw [hwork, Gathered.note, Nat.add_assoc]
      · rw [hseen, Gathered.note, Bool.or_assoc, Bool.or_assoc]
      · rw [hreachable, Gathered.note, Bool.or_assoc, Bool.or_assoc]
    · rintro ⟨⟨hr, hwithin⟩, hall, hwork, hseen, hreachable⟩
      obtain ⟨types, htypes, hall⟩ := exceptBind_ok hall
      rw [gather_eq_ok.2 ⟨hr, types, htypes, rfl⟩]
      refine ih.2 ⟨hwithin, hall, ?_, ?_, ?_⟩
      · rw [hwork, Gathered.note, Nat.add_assoc]
      · rw [hseen, Gathered.note, Bool.or_assoc, Bool.or_assoc]
      · rw [hreachable, Gathered.note, Bool.or_assoc, Bool.or_assoc]

end

/-! ## Denials -/

/-- The records that a denial is about. -/
def owned (q : TranslatedQuestion) (records : List Record) : List Record :=
  records.filter fun r => r.name == q.multicast.name && r.cls &&& 0x7fff == 1 && r.ttl != 0

/-- Whether a type is left out because nobody can use the addresses that it stands for. -/
def hidden (reach : Reachability) (rs : List Record) (k : UInt16) : Bool :=
  (k == 1 || k == 28) && (rs.any fun r => r.kind == k) &&
    !rs.any fun r => r.kind == k && usable r reach

/-- What the limits of a denial ask of the records: at most 4096 of them; valid bitmaps, of at most
262144 octets with the records up to them; at most 1024 types, and one less, without those that are
left out, in an NSEC record, which lists itself; and a short enough domain for an NSEC3 record. -/
structure Deniable (sha1 : Bytes → Octets 20) (q : TranslatedQuestion) (domain : Name)
    (records : List Record) (reach : Reachability) : Prop where
  few : records.length ≤ 4096
  within : Within 0 (owned q records)
  types : ((owned q records).flatMap
    (listedTypes (q.original.name == domain))).toFinset.card ≤ 1024
  nsec : q.original.kind ≠ 50 → (((owned q records).flatMap
    (listedTypes (q.original.name == domain))).filter fun k =>
      !hidden reach (owned q records) k).toFinset.card < 1024
  nsec3 : q.original.kind = 50 →
    LabelsOk (base32hex (sha1 q.original.name.canonical) :: domain.labels)

/-- The types of a denial are those listed, without the ones that are left out: A and AAAA, when
records of the type were seen and none of them is reachable. Both are removed by the same step
(`drop`), which leaves the set alone if its condition is false. -/
theorem lists_usableTypes {reach : Reachability} {rs : List Record} {l : List UInt16} {g : Gathered}
    (h : Lists g.types l.toFinset)
    (hseen : g.seen = (rs.any fun r => r.kind == 1, rs.any fun r => r.kind == 28))
    (hreachable : g.reachable = (rs.any fun r => r.kind == 1 && usable r reach,
      rs.any fun r => r.kind == 28 && usable r reach)) :
    Lists g.usableTypes (l.filter fun k => !hidden reach rs k).toFinset := by
  have drop : ∀ {types : OrdMap UInt16 Unit} {s : Finset UInt16} (k : UInt16) (c : Bool),
      Lists types s → Lists (if c then types.remove k else types)
        (s.filter fun k' => ¬ (k' = k ∧ c = true)) := by
    intro types s k c hs
    cases c with
    | true =>
      rw [if_pos rfl]
      have herase : (s.filter fun k' => ¬ (k' = k ∧ true = true)) = s.erase k := by
        ext k'
        simp [and_comm]
      rw [herase]
      exact hs.remove k
    | false => simpa using hs
  have hboth := drop 28 (g.seen.2 && !g.reachable.2) (drop 1 (g.seen.1 && !g.reachable.1) h)
  rw [hseen, hreachable] at hboth
  unfold Gathered.usableTypes
  rw [hseen, hreachable]
  intro k
  rw [hboth k]
  simp only [Finset.mem_filter, List.mem_toFinset, List.mem_filter, hidden]
  by_cases h1 : k = 1
  · subst h1
    generalize (rs.any fun r => r.kind == 1) = present
    generalize (rs.any fun r => r.kind == 1 && usable r reach) = reached
    cases present <;> cases reached <;> simp
  · by_cases h28 : k = 28
    · subst h28
      generalize (rs.any fun r => r.kind == 28) = present
      generalize (rs.any fun r => r.kind == 28 && usable r reach) = reached
      cases present <;> cases reached <;> simp
    · simp [h1, h28]

/-- The type of a denial itself is not listed by one. -/
theorem acceptedType_nsec (apex : Bool) : acceptedType apex 47 = false := by
  cases apex <;> decide

/-- A denial can be given exactly if its limits are kept to. The next name never fails
(`successor_least`), and the types that are gathered are those of the limits (`gatherAll_eq_ok`,
`lists_usableTypes`); what is left is that the records are affordable and that the bitmap can be
written. -/
theorem Zone.denial_ok_iff {z : Zone} {sha1 : Bytes → Octets 20} {q : TranslatedQuestion}
    {domain : Name} {records : List Record} {reach : Reachability}
    (hscope : z.scope q.original.name = some q.scope) (hdomain : z.domain q.scope = some domain) :
    (∃ r, z.denial sha1 q records reach = .ok r) ↔ Deniable sha1 q domain records reach := by
  have hsucc := successor_least domain q.original.name (Zone.within_domain hscope hdomain)
  obtain ⟨next, hnext, -⟩ := hsucc
  obtain ⟨apex, hapex⟩ : ∃ apex, (q.original.name == domain) = apex := ⟨_, rfl⟩
  obtain ⟨l, hl⟩ : ∃ l, (owned q records).flatMap (listedTypes apex) = l := ⟨_, rfl⟩
  have hnot47 : (47 : UInt16) ∉ (l.filter fun k => !hidden reach (owned q records) k).toFinset := by
    rw [List.mem_toFinset, List.mem_filter, ← hl, List.mem_flatMap]
    rintro ⟨⟨r, -, hr⟩, -⟩
    have := (List.mem_filter.1 hr).2
    rw [acceptedType_nsec] at this
    cases this
  obtain ⟨hroom, hlists⟩ := insertTypes_ok (l := l) Lists.empty (by simp)
  rw [Finset.empty_union] at hroom hlists
  -- What is gathered, where there is room for it.
  have hgathered : ∀ {g : Gathered}, (owned q records).foldlM (gather apex reach)
      ⟨.empty, 0, (false, false), (false, false)⟩ = .ok g →
      Lists g.usableTypes (l.filter fun k => !hidden reach (owned q records) k).toFinset := by
    intro g hg
    obtain ⟨-, htypes, -, hseen, hreachable⟩ := gatherAll_eq_ok.1 hg
    rw [hl] at htypes
    exact lists_usableTypes (hlists _ htypes) hseen hreachable
  have hdenial : z.denial sha1 q records reach =
      if records.length > 4096 ∨ z.scope q.original.name ≠ some q.scope then .error invalid
      else (owned q records).foldlM (gather apex reach)
          ⟨.empty, 0, (false, false), (false, false)⟩ >>= fun g =>
        if q.original.kind = 50 then nsec3 sha1 q.original.name domain g.usableTypes
        else insertType g.usableTypes 47 >>= fun types =>
          .ok ⟨q.original.name, 47, 1, 10, .nsec next (typeBitmap types.keys)⟩ := by
    rw [denial, hdomain]
    simp only [hapex, hnext]
    rfl
  have hsub : (l.filter fun k => !hidden reach (owned q records) k).toFinset.card ≤
      l.toFinset.card :=
    Finset.card_le_card fun k hk =>
      List.mem_toFinset.2 (List.mem_filter.1 (List.mem_toFinset.1 hk)).1
  rw [hdenial]
  constructor
  · rintro ⟨r, hr⟩
    split at hr
    · cases hr
    · next hfew =>
      obtain ⟨g, hg, hr⟩ := exceptBind_ok hr
      obtain ⟨hwithin, htypes, -⟩ := gatherAll_eq_ok.1 hg
      rw [hl] at htypes
      have hcard := hroom.1 ⟨_, htypes⟩
      refine ⟨by omega, hwithin, ?_, fun h50 => ?_, fun h50 => ?_⟩
      · rw [hapex, hl]
        exact hcard
      · rw [hapex, hl]
        rw [if_neg h50] at hr
        obtain ⟨types, hinsert, -⟩ := exceptBind_ok hr
        have hroom' := ((insertType_eq_ok (hgathered hg) (by omega)).1 hinsert).1
        rw [Finset.card_insert_of_notMem hnot47] at hroom'
        omega
      · rw [if_pos h50, nsec3] at hr
        obtain ⟨owner, howner, -⟩ := exceptBind_ok hr
        by_contra hlabels
        rw [ofLabels, Name.fromLabels, dif_neg hlabels] at howner
        cases howner
  · intro h
    have htypes := h.types
    have hnsec := h.nsec
    rw [hapex, hl] at htypes hnsec
    obtain ⟨types, hall⟩ := hroom.2 htypes
    obtain ⟨g, hg⟩ : ∃ g, (owned q records).foldlM (gather apex reach)
        ⟨.empty, 0, (false, false), (false, false)⟩ = .ok g :=
      ⟨⟨types, _, (_, _), (_, _)⟩,
       gatherAll_eq_ok.2 ⟨h.within, by rw [hl]; exact hall, rfl, rfl, rfl⟩⟩
    have hfew := h.few
    rw [if_neg (not_or.2 ⟨by omega, not_not.2 hscope⟩), hg]
    by_cases h50 : q.original.kind = 50
    · obtain ⟨owner, howner, -⟩ := ofLabels_eq _ (h.nsec3 h50)
      have hnsec3 : ∃ r, nsec3 sha1 q.original.name domain g.usableTypes = .ok r := by
        rw [nsec3, howner]
        exact ⟨_, rfl⟩
      obtain ⟨r, hr⟩ := hnsec3
      exact ⟨r, (if_pos h50).trans hr⟩
    · have hroom' := hnsec h50
      have hinsert := (insertType_eq_ok (k := 47) (hgathered hg) (by omega)).2
        ⟨by rw [Finset.card_insert_of_notMem hnot47]; omega, rfl⟩
      have hlast : ∃ r, (insertType g.usableTypes 47 >>= fun types =>
          .ok (⟨q.original.name, 47, 1, 10, .nsec next (typeBitmap types.keys)⟩ : Record)) =
            (.ok r : Except IoError Record) := by
        rw [hinsert]
        exact ⟨_, rfl⟩
      obtain ⟨r, hr⟩ := hlast
      exact ⟨r, (if_neg h50).trans hr⟩

/-- A denial is an NSEC or an NSEC3 record. The two branches of the source build one or the other;
every other end of the function is an error. -/
theorem Zone.denial_kind {z : Zone} {sha1 : Bytes → Octets 20} {q : TranslatedQuestion}
    {records : List Record} {reach : Reachability} {r : Record}
    (h : z.denial sha1 q records reach = .ok r) : r.kind = 47 ∨ r.kind = 50 := by
  unfold denial at h
  split at h
  · cases h
  · split at h
    · cases h
    · obtain ⟨g, -, h⟩ := exceptBind_ok h
      split at h
      · obtain ⟨owner, -, h⟩ := exceptBind_ok h
        cases h
        exact .inr rfl
      · obtain ⟨types, -, h⟩ := exceptBind_ok h
        obtain ⟨next, -, h⟩ := exceptBind_ok h
        cases h
        exact .inl rfl

end SnacMachine.Discovery
