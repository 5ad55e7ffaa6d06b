import Mathlib.Data.List.Nodup
import Mathlib.Data.List.Perm.Subperm
import SnacMachine.Nat64.Selection

/-!
# What a selector announces

Whatever a selector has seen, what it decides to announce can be recorded as promised
(`selection_admissible`): the slots left by the promises bound the new prefixes (`Offer`), and the
pass over the promises adds no prefix beyond these and the promised ones (`Listed`).
-/

namespace SnacMachine

open Ip

/-! ## Prefixes as numbers -/

/-- The first octet is the number of the eight highest bits. -/
theorem Ipv6Addr.octet_zero (a : Ipv6Addr) : (octet a.1 0).toNat = a.value / 2 ^ 120 := by
  obtain ⟨b, hb⟩ := a
  cases b with
  | nil => cases hb
  | cons x b =>
    have hlen : b.length = 15 := by simpa using hb
    have hlt := ofBe_lt b
    rw [hlen] at hlt
    show x.toNat = ofBe (x :: b) / 2 ^ 120
    rw [ofBe_cons, hlen, show (2 : Nat) ^ 120 = 256 ^ 15 by norm_num, Nat.mul_comm,
      Nat.mul_add_div (by norm_num), Nat.div_eq_of_lt hlt, Nat.add_zero]

end SnacMachine

namespace SnacMachine.Nat64

open Ip

/-- A unique local address that is masked to 96 bits is a usable prefix. Its first octet is 252 or
253, which tells it from the addresses that the source turns away. -/
theorem usable_of_ula {v : Nat} (hv : v < 2 ^ 128) (hula : v / 2 ^ 120 = 252 ∨ v / 2 ^ 120 = 253) :
    usable ⟨.ofValue (v / 2 ^ 32 * 2 ^ 32), 96⟩ = true := by
  generalize hm : v / 2 ^ 32 * 2 ^ 32 = m
  have hlt : m < 2 ^ 128 := by omega
  have hhigh : m / 2 ^ 120 = v / 2 ^ 120 := by omega
  have hmask : m / 2 ^ 32 * 2 ^ 32 = m := by
    rw [← hm, Nat.mul_div_cancel _ (by norm_num)]
  have hvalue : (Ipv6Addr.ofValue m).value = m := by
    rw [Ipv6Addr.value_ofValue, Nat.mod_eq_of_lt hlt]
  have hfirst : (octet (Ipv6Addr.ofValue m).1 0).toNat = v / 2 ^ 120 := by
    rw [Ipv6Addr.octet_zero, hvalue, hhigh]
  have hnew : Prefix.new (.ofValue m) 96 = some ⟨.ofValue m, 96⟩ := by
    have hhost : 128 - (96 : UInt8).toNat = 32 := rfl
    rw [Prefix.new, if_neg (by decide)]
    simp only [hvalue, hhost, hmask]
  have hlink : (Ipv6Addr.ofValue m).linkLocal = false := by
    have hu : u16At (Ipv6Addr.ofValue m).1 0 < 254 * 256 := by
      have := (octet (Ipv6Addr.ofValue m).1 1).toNat_lt
      rw [u16At, ofBe_cons, ofBe_cons, hfirst]
      simp
      omega
    have hle : u16At (Ipv6Addr.ofValue m).1 0 &&& 0xffc0 ≤ u16At (Ipv6Addr.ofValue m).1 0 :=
      Nat.and_le_left
    rw [Ipv6Addr.linkLocal, beq_eq_false_iff_ne]
    omega
  have hmulti : (Ipv6Addr.ofValue m).isMulticast = false := by
    rw [Ipv6Addr.isMulticast, beq_eq_false_iff_ne]
    intro heq
    rw [heq] at hfirst
    simp at hfirst
    omega
  have hunspec : (Ipv6Addr.ofValue m).isUnspecified = false := by
    rw [Ipv6Addr.isUnspecified, hvalue, beq_eq_false_iff_ne]
    omega
  have hloop : (Ipv6Addr.ofValue m).isLoopback = false := by
    rw [Ipv6Addr.isLoopback, hvalue, beq_eq_false_iff_ne]
    omega
  have hmapped : (Ipv6Addr.ofValue m).isIpv4Mapped = false := by
    rw [Ipv6Addr.isIpv4Mapped, hvalue, beq_eq_false_iff_ne]
    omega
  simp only [usable, Prefix.routable, hlink, hmulti, hunspec, hloop, hmapped, hnew,
    beq_self_eq_true]
  rfl

/-- The prefix of the site's own translator is usable: it is made from a unique local prefix of the
site, and keeps its first octet. -/
theorem usable_local {site p : Prefix} (h : Selector.localOf site = .ok p) : usable p = true := by
  unfold Selector.localOf at h
  split at h
  · cases h
  · next hok =>
    simp only [not_or, ne_eq, not_not, Bool.not_eq_true, Bool.not_eq_false'] at hok
    obtain ⟨-, hula, -⟩ := hok
    have hsite := site.address.value_lt
    generalize hv : site.address.value ||| 0xffff <<< 64 = v at h
    have hlt : v < 2 ^ 128 := by
      rw [← hv]
      exact Nat.or_lt_two_pow hsite (by decide)
    have hhigh : v / 2 ^ 120 = (octet site.address.1 0).toNat := by
      rw [← hv, ← Nat.shiftRight_eq_div_pow, Nat.shiftRight_or_distrib, Ipv6Addr.octet_zero,
        ← Nat.shiftRight_eq_div_pow]
      exact Nat.or_zero _
    have hoctet : ∀ x : UInt8, (x &&& 0xfe == 0xfc) = true → x.toNat = 252 ∨ x.toNat = 253 :=
      octets_forall (by decide +kernel)
    rw [Prefix.new, if_neg (by decide)] at h
    simp only [Ipv6Addr.value_ofValue, Nat.mod_eq_of_lt hlt] at h
    cases h
    exact usable_of_ula hlt (by rw [hhigh]; exact hoctet _ hula)

/-! ## Observations -/

namespace Observations

/-- The prefix was observed of a reachable router until `t`, which is to come. -/
def Seen (s : Observations) (link : Link) (now : Nat) (reachable : Ipv6Addr → Bool) (p : Prefix)
    (t : Nat) : Prop :=
  ∃ router, s.entries.get (link, router, p) = some t ∧ t > now ∧ reachable router = true

/-- What the loop over the observations collects was seen in one of them, or collected before. A
prefix that is met twice keeps the later of both times, and each of them was seen. -/
theorem seen_liveStep {s : Observations} {link : Link} {now : Nat} {reachable : Ipv6Addr → Bool}
    {prefixes : OrdMap Prefix Nat} {e : (Link × Ipv6Addr × Prefix) × Nat}
    (he : e ∈ s.entries.entries)
    (hp : ∀ p t, prefixes.get p = some t → s.Seen link now reachable p t) {p : Prefix}
    {t : Nat} (h : (liveStep link now reachable prefixes e).get p = some t) :
    s.Seen link now reachable p t := by
  obtain ⟨⟨l, router, p'⟩, t'⟩ := e
  have hget := OrdMap.mem_iff_get.1 he
  simp only [liveStep] at h
  split at h
  · next hcond =>
    obtain ⟨rfl, hnow, hreach⟩ := hcond
    have hnew : s.Seen l now reachable p' t' := ⟨router, hget, hnow, hreach⟩
    split at h
    · next v hold =>
      rw [OrdMap.get_insert_eq] at h
      split at h
      · next heq =>
        subst heq
        cases h
        cases Nat.le_total v t' with
        | inl hle => rw [Nat.max_eq_right hle]; exact hnew
        | inr hle => rw [Nat.max_eq_left hle]; exact hp p' v hold
      · exact hp p t h
    · rw [OrdMap.get_insert_eq] at h
      split at h
      · next heq =>
        subst heq
        cases h
        exact hnew
      · exact hp p t h
  · exact hp p t h

/-- What is live was observed of a reachable router. By induction on the observations, each of which
is left out or adds its prefix with its own time. -/
theorem mem_live {s : Observations} {link : Link} {now : Nat} {reachable : Ipv6Addr → Bool}
    {p : Prefix} {t : Nat} (h : (p, t) ∈ s.live link now reachable) :
    s.Seen link now reachable p t := by
  have hfold : ∀ (l : List ((Link × Ipv6Addr × Prefix) × Nat)) (prefixes : OrdMap Prefix Nat),
      (∀ e ∈ l, e ∈ s.entries.entries) →
      (∀ p t, prefixes.get p = some t → s.Seen link now reachable p t) →
      ∀ p t, (l.foldl (liveStep link now reachable) prefixes).get p = some t →
        s.Seen link now reachable p t := by
    intro l
    induction l with
    | nil => exact fun _ _ h => h
    | cons e l ih =>
      intro prefixes hl hp
      exact ih _ (fun e he => hl e (List.mem_cons_of_mem _ he))
        fun p t => seen_liveStep (hl e List.mem_cons_self) hp
  exact hfold _ _ (fun _ he => he) (fun _ _ h => by cases h) p t (OrdMap.mem_iff_get.1 h)

/-- No prefix is collected twice. -/
theorem nodup_live (s : Observations) (link : Link) (now : Nat) (reachable : Ipv6Addr → Bool) :
    ((s.live link now reachable).map Prod.fst).Nodup := OrdMap.keys_nodup _

/-- Every observed prefix is usable. -/
def Usable (s : Observations) : Prop :=
  ∀ k t, s.entries.get k = some t → usable k.2.2 = true

/-- Fewer observations are usable ones. -/
theorem Usable.retain {s : Observations} (h : s.Usable)
    (p : Link × Ipv6Addr × Prefix → Nat → Bool) : Usable ⟨s.entries.retain p⟩ := by
  intro k t hget
  rw [OrdMap.get_retain_lawful, Option.filter_eq_some_iff] at hget
  exact h k t hget.1

/-- What is received adds usable prefixes only. By induction on the options: an option with a
lifetime enters its prefix after the check, and one without removes it. -/
theorem Usable.receive {s : Observations} (h : s.Usable) (link : Link)
    (packet : Bytes) (now : Nat) :
    (s.receive link packet now).2.Usable := by
  have hfold : ∀ (l : List NdOption) (source : Ipv6Addr)
      (next : OrdMap (Link × Ipv6Addr × Prefix) Nat), Usable ⟨next⟩ →
      Usable ⟨l.foldl (observe link source now) next⟩ := by
    intro l source
    induction l with
    | nil => exact fun _ h => h
    | cons o l ih =>
      intro next hnext
      refine ih _ ?_
      intro k t hget
      simp only [observe] at hget
      split at hget
      · exact hnext k t hget
      · next p hp =>
        rw [Option.filter_eq_some_iff] at hp
        split at hget
        · rw [OrdMap.get_remove_eq] at hget
          split at hget
          · cases hget
          · exact hnext k t hget
        · rw [OrdMap.get_insert_eq] at hget
          split at hget
          · next heq =>
            subst heq
            exact hp.2
          · exact hnext k t hget
  unfold Observations.receive
  split
  · exact h
  · split
    · exact h
    · split
      · exact h
      · split
        · exact h
        · simp only
          split
          · exact h
          · exact hfold _ _ _ (h.retain _)

end Observations

/-! ## Lifetimes -/

/-- Lifetimes are told in units of eight seconds. -/
theorem remaining_mod (until_ now : Nat) : remaining until_ now % 8 = 0 := by
  rw [remaining]
  omega

/-- A positive lifetime ends before what backs it does. -/
theorem remaining_le {until_ now : Nat} (h : 0 < remaining until_ now) :
    now + remaining until_ now * 1000 ≤ until_ := by
  rw [remaining] at h ⊢
  omega

namespace Selector

section Deciding

variable (s : Selector) (now : Nat) (ready : Readiness) (reachable : Link → Ipv6Addr → Bool)
  (route : Prefix → Option Nat)

/-- A lifetime that ends before a moment, if there is one. -/
def Within (now : Nat) (a : Announcement) (t : Option Nat) : Prop :=
  ∃ u, t = some u ∧ now + a.pref64.lifetime * 1000 ≤ u

/-- What a prefix of another router is backed by, the observation of it apart. -/
def Returned (a : Announcement) : Prop :=
  Within now a (route a.pref64.prefix_) ∧
    (s.policy.allowWithoutPd = true ∨ Within now a ready.pd)

/-- Everything that a positive announcement rests on lasts as long as it. -/
def Backed (a : Announcement) : Prop :=
  a.pref64.lifetime % 8 = 0 ∧ Within now a ready.stub ∧
    match a.source with
    | .local_ => a.pref64.prefix_ = s.local_ ∧ Within now a ready.ipv4 ∧ a.pref64.lifetime ≤ 1800
    | .infrastructure => s.Returned now ready route a ∧
        ∃ t, s.observations.Seen .ail now (reachable .ail) a.pref64.prefix_ t ∧
          Within now a (some t)
    | .configured => s.Returned now ready route a ∧
        s.policy.infrastructure = some a.pref64.prefix_

/-- The prefixes of announcements that are not promised yet. -/
def fresh (announcements : List Announcement) : List Prefix :=
  (announcements.map fun a => a.pref64.prefix_).filter fun p => !s.promised.contains p

/-- A decision before the pass over the promises: for each announced prefix one route, a slot for
each new one, and backing for all. -/
structure Offer (d : Decision) : Prop where
  nodup : (d.announcements.map fun a => a.pref64.prefix_).Nodup
  routes : d.routes.map Rio.prefix_ = d.announcements.map fun a => a.pref64.prefix_
  slots : (s.fresh d.announcements).length + s.promised.size ≤ 8
  usable : ∀ a ∈ d.announcements, usable a.pref64.prefix_ = true
  backed : ∀ a ∈ d.announcements, s.Backed now ready reachable route a

/-- What a selector keeps between two calls. -/
structure Inv : Prop where
  size : s.promised.size ≤ 8
  promised : ∀ p v, s.promised.get p = some v → Nat64.usable p = true
  observed : s.observations.Usable
  configured : ∀ p, s.policy.infrastructure = some p → Nat64.usable p = true
  local_ : Nat64.usable s.local_ = true

variable {s now ready reachable route}

/-- Announcing nothing is always a justified offer. -/
theorem offer_quiet (h : s.Inv) (mode : Mode) (reason : String) :
    s.Offer now ready reachable route (quiet mode reason) where
  nodup := .nil
  routes := rfl
  slots := by
    have := h.size
    simpa [quiet, fresh] using this
  usable := fun _ h => nomatch h
  backed := fun _ h => nomatch h

/-- The routes of a decision are those to the announced prefixes. -/
theorem announcing_routes (mode : Mode) (announcements : List Announcement) (reason : String) :
    (announcing mode announcements reason).routes.map Rio.prefix_ =
      announcements.map fun a => a.pref64.prefix_ := by
  simp [announcing, Function.comp_def]

/-- The announcements are of candidates, each backed and for a positive time, and the new ones find
a slot. -/
structure Chosen (s : Selector) (now : Nat) (route : Prefix → Option Nat) (stub : Nat)
    (pd : Option Nat) (cs : List (Prefix × Nat × Source)) (slots : Nat)
    (out : List Announcement) : Prop where
  sublist : (out.map fun a => a.pref64.prefix_).Sublist (cs.map Prod.fst)
  slots : (s.fresh out).length ≤ slots
  chosen : ∀ a ∈ out, ∃ c ∈ cs, ∃ until_, s.backing route stub pd c = some until_ ∧
    a = ⟨⟨c.1, remaining until_ now⟩, c.2.2⟩ ∧ 0 < remaining until_ now

variable {stub : Nat} {pd : Option Nat} {c : Prefix × Nat × Source}
  {cs : List (Prefix × Nat × Source)} {slots : Nat} {out : List Announcement}

/-- Nothing is chosen from no candidates. -/
theorem Chosen.nil : Chosen s now route stub pd cs slots [] where
  sublist := List.nil_sublist _
  slots := Nat.zero_le _
  chosen := fun _ h => nomatch h

/-- A candidate that is passed over changes nothing. -/
theorem Chosen.skip (h : Chosen s now route stub pd cs slots out) :
    Chosen s now route stub pd (c :: cs) slots out where
  sublist := h.sublist.cons _
  slots := h.slots
  chosen := fun a ha => by
    obtain ⟨c, hc, hrest⟩ := h.chosen a ha
    exact ⟨c, List.mem_cons_of_mem _ hc, hrest⟩

/-- A candidate that is backed and has time left is chosen if there is a slot for it. A prefix that
is promised already needs none. -/
theorem Chosen.take {n until_ : Nat} (h : Chosen s now route stub pd cs slots out)
    (hb : s.backing route stub pd c = some until_) (hpos : 0 < remaining until_ now)
    (hslots : (if s.promised.contains c.1 then slots else slots + 1) ≤ n) :
    Chosen s now route stub pd (c :: cs) n (⟨⟨c.1, remaining until_ now⟩, c.2.2⟩ :: out) where
  sublist := h.sublist.cons_cons _
  slots := by
    have := h.slots
    simp only [fresh, List.map_cons, List.filter_cons]
    cases hc : s.promised.contains c.1 with
    | true =>
      rw [hc] at hslots
      simp only [Bool.not_true, Bool.false_eq_true, if_false]
      exact Nat.le_trans this hslots
    | false =>
      rw [hc] at hslots
      simp only [Bool.not_false, if_true, List.length_cons]
      exact Nat.le_trans (Nat.succ_le_succ this) hslots
  chosen := by
    intro a ha
    cases List.mem_cons.1 ha with
    | inl ha => exact ⟨c, List.mem_cons_self, until_, hb, ha, hpos⟩
    | inr ha =>
      obtain ⟨c', hc, hrest⟩ := h.chosen a ha
      exact ⟨c', List.mem_cons_of_mem _ hc, hrest⟩

/-- The loop over the candidates chooses among them. By induction on the candidates: each is taken
(`Chosen.take`) or skipped. -/
theorem chosen_announceEach (stub : Nat) (pd : Option Nat) (cs : List (Prefix × Nat × Source))
    (slots taken : Nat) (failed : Bool) :
    Chosen s now route stub pd cs slots
      (announceEach now route s stub pd cs slots taken failed).1 := by
  induction cs generalizing slots taken failed with
  | nil => exact .nil
  | cons c cs ih =>
    rw [announceEach]
    split
    · exact .nil
    · split
      · exact (ih _ _ _).skip
      · next until_ hb =>
        simp only
        split
        · exact (ih _ _ _).skip
        · next hpos =>
          split
          · next hc => exact (ih _ _ _).take hb (Nat.pos_of_ne_zero hpos) (by rw [if_pos hc])
          · next hc =>
            split
            · exact (ih _ _ _).skip
            · next hslots =>
              refine (ih _ _ _).take hb (Nat.pos_of_ne_zero hpos) ?_
              rw [if_neg hc]
              omega

/-- No candidate is there twice. -/
theorem nodup_candidates (s : Selector) (now : Nat) (reachable : Link → Ipv6Addr → Bool) :
    ((s.candidates now reachable).map Prod.fst).Nodup := by
  unfold candidates
  split
  · exact List.nodup_singleton _
  · rw [List.map_map]
    exact s.observations.nodup_live _ _ _

/-- What a candidate is. -/
theorem mem_candidates (h : c ∈ s.candidates now reachable) :
    s.policy.infrastructure = some c.1 ∧ c.2.2 = .configured ∨
      s.observations.Seen .ail now (reachable .ail) c.1 c.2.1 ∧ c.2.2 = .infrastructure := by
  unfold candidates at h
  split at h
  · next p hp =>
    rw [List.mem_singleton] at h
    subst h
    exact .inl ⟨hp, rfl⟩
  · obtain ⟨e, he, rfl⟩ := List.mem_map.1 h
    exact .inr ⟨Observations.mem_live he, rfl⟩

/-- What a backing is made of. -/
theorem backing_eq_some {until_ : Nat} (h : s.backing route stub pd c = some until_) :
    ∃ routed leased, route c.1 = some routed ∧
      (s.policy.allowWithoutPd = true ∨ pd = some leased) ∧
      until_ ≤ c.2.1 ∧ until_ ≤ routed ∧ until_ ≤ stub ∧ until_ ≤ leased := by
  simp only [backing, Option.bind_eq_bind, Option.bind_eq_some_iff] at h
  obtain ⟨routed, hr, leased, hl, hu⟩ := h
  cases hu
  refine ⟨routed, leased, hr, ?_, by omega, by omega, by omega, by omega⟩
  split at hl
  · next hallow => exact .inl hallow
  · exact .inr hl

/-- An announcement of the loop over the candidates is backed. The backing of its candidate is that
of the state (`backing_eq_some`), and the time that remains is not more than what backs it. -/
theorem Chosen.backed (h : Chosen s now route stub pd (s.candidates now reachable) slots out)
    (hstub : ready.stub = some stub) (hpd : pd = ready.pd.filter fun t => t > now)
    {a : Announcement} (ha : a ∈ out) : s.Backed now ready reachable route a := by
  obtain ⟨c, hc, until_, hb, rfl, hpos⟩ := h.chosen a ha
  obtain ⟨routed, leased, hr, hl, hobs, hroute, hst, hle⟩ := backing_eq_some hb
  have hend := remaining_le hpos
  have hreturned : s.Returned now ready route ⟨⟨c.1, remaining until_ now⟩, c.2.2⟩ := by
    refine ⟨⟨routed, hr, Nat.le_trans hend hroute⟩, ?_⟩
    cases hl with
    | inl hl => exact .inl hl
    | inr hl =>
      rw [hpd, Option.filter_eq_some_iff] at hl
      exact .inr ⟨leased, hl.1, Nat.le_trans hend hle⟩
  refine ⟨remaining_mod _ _, ⟨stub, hstub, Nat.le_trans hend hst⟩, ?_⟩
  obtain ⟨hconf, hsource⟩ | ⟨hseen, hsource⟩ := mem_candidates hc
  · rw [hsource] at hreturned ⊢
    exact ⟨hreturned, hconf⟩
  · rw [hsource] at hreturned ⊢
    exact ⟨hreturned, c.2.1, hseen, c.2.1, rfl, Nat.le_trans hend hobs⟩

/-- What is chosen from the candidates is usable. -/
theorem Chosen.usable (h : Chosen s now route stub pd (s.candidates now reachable) slots out)
    (hs : s.Inv) {a : Announcement} (ha : a ∈ out) : Nat64.usable a.pref64.prefix_ = true := by
  obtain ⟨c, hc, until_, -, rfl, -⟩ := h.chosen a ha
  obtain ⟨hconf, -⟩ | ⟨⟨router, hseen, -⟩, -⟩ := mem_candidates hc
  · exact hs.configured _ hconf
  · exact hs.observed _ _ hseen

/-- The decision to announce prefixes of other routers. Each of its parts is one of the choice: the
prefixes differ, are usable, fit and are backed. -/
theorem Chosen.offer (h : Chosen s now route stub pd (s.candidates now reachable)
      (8 - s.promised.size) out) (hs : s.Inv) (hstub : ready.stub = some stub)
    (hpd : pd = ready.pd.filter fun t => t > now) (mode : Mode) (reason : String) :
    s.Offer now ready reachable route (announcing mode out reason) where
  nodup := h.sublist.nodup (nodup_candidates s now reachable)
  routes := announcing_routes _ _ _
  slots := by
    have := h.slots
    have := hs.size
    show (s.fresh out).length + s.promised.size ≤ 8
    omega
  usable := fun _ ha => h.usable hs ha
  backed := fun _ ha => h.backed hstub hpd ha

/-- The decision about the site's own translator is an offer. It announces the local prefix with the
shorter of the lifetimes of the IPv4 route and the stub prefix, if there is a promise to spare, and
nothing else. -/
theorem offer_selectLocal (hs : s.Inv) (hstub : ready.stub = some stub) (peer : Bool) :
    s.Offer now ready reachable route (s.selectLocal now ready stub peer) := by
  unfold selectLocal
  simp only
  split
  · exact offer_quiet hs _ _
  · split
    · split
      · exact offer_quiet hs _ _
      · next ipv4 hipv4 =>
        rw [Option.filter_eq_some_iff] at hipv4
        split
        · next hok =>
          obtain ⟨hpos, hslot⟩ := hok
          have hend := remaining_le hpos
          have hsat := satAdd_le now 1800000
          refine ⟨List.nodup_singleton _, rfl, ?_, ?_, ?_⟩
          · have hsize := hs.size
            simp only [announcing, fresh, List.map_cons, List.map_nil, List.filter_cons,
              List.filter_nil]
            cases hc : s.promised.contains s.local_ with
            | true => simpa using hsize
            | false =>
              rw [hc] at hslot
              have : s.promised.size < 8 := by simpa using hslot
              simp only [Bool.not_false, if_true, List.length_singleton]
              omega
          · intro a ha
            rw [List.mem_singleton.1 ha]
            exact hs.local_
          · intro a ha
            rw [List.mem_singleton.1 ha]
            exact ⟨remaining_mod _ _, ⟨stub, hstub, by simp only; omega⟩, rfl,
              ⟨ipv4, hipv4.1, by simp only; omega⟩, by simp only; omega⟩
        · exact offer_quiet hs _ _
    · exact offer_quiet hs _ _

/-- A failed announcement changes the mark of suppression only. -/
theorem announcementFailed_eq (mode : Mode) :
    ∃ b, s.announcementFailed mode now = { s with suppressed := b } := by
  unfold announcementFailed
  split
  · exact ⟨true, rfl⟩
  · exact ⟨s.suppressed, rfl⟩

/-- The mark of a suppressed prefix is no part of the invariant. -/
theorem Inv.suppress (h : s.Inv) (b : Bool) : ({ s with suppressed := b } : Selector).Inv :=
  ⟨h.size, h.promised, h.observed, h.configured, h.local_⟩

/-- An offer does not depend on the mark of a suppressed prefix. -/
theorem Offer.ofSuppressed {b : Bool} {d : Decision}
    (h : ({ s with suppressed := b } : Selector).Offer now ready reachable route d) :
    s.Offer now ready reachable route d := ⟨h.nodup, h.routes, h.slots, h.usable, h.backed⟩

/-- The decision is an offer, and the selector changes in the mark of suppression only. One case for
each branch of the source: nothing to announce, the prefixes of the candidates, those of the
infrastructure, or the local one. -/
theorem selectCurrent_spec (hs : s.Inv) :
    (∃ b, (selectCurrent now ready reachable route s).2 = { s with suppressed := b }) ∧
      s.Offer now ready reachable route (selectCurrent now ready reachable route s).1 := by
  unfold selectCurrent
  split
  · exact ⟨⟨_, rfl⟩, offer_quiet hs _ _⟩
  · split
    · exact ⟨⟨_, rfl⟩, offer_quiet hs _ _⟩
    · next stub hstub =>
      replace hstub := (Option.filter_eq_some_iff.1 hstub).1
      split
      · exact ⟨⟨_, rfl⟩, offer_quiet hs _ _⟩
      · simp only
        split
        · have hchosen : Chosen s now route _ _ _ _ _ := chosen_announceEach stub
            (ready.pd.filter fun t => t > now) (s.candidates now reachable)
            (8 - s.promised.size) 0 false
          generalize announceEach now route s stub (ready.pd.filter fun t => t > now)
            (s.candidates now reachable) (8 - s.promised.size) 0 false = r at hchosen ⊢
          obtain ⟨b, hb⟩ : ∃ b, (if r.1 = [] ∧ r.2 = true then
              s.announcementFailed .infrastructure now else s) = { s with suppressed := b } := by
            split
            · exact announcementFailed_eq _
            · exact ⟨s.suppressed, rfl⟩
          rw [hb]
          split
          · exact ⟨⟨b, rfl⟩, offer_quiet hs _ _⟩
          · split
            · exact ⟨⟨b, rfl⟩, hchosen.offer hs hstub rfl _ _⟩
            · exact ⟨⟨b, rfl⟩, (offer_selectLocal (hs.suppress b) hstub _).ofSuppressed⟩
        · exact ⟨⟨_, rfl⟩, offer_selectLocal hs hstub _⟩

/-- The choice makes a justified offer, and changes the mark of a suppressed prefix only. -/
theorem selectActive_spec (hs : (s.expire now).Inv) :
    (∃ b, (s.selectActive now ready reachable route).2 = { s.expire now with suppressed := b }) ∧
      (s.expire now).Offer now ready reachable route
        (s.selectActive now ready reachable route).1 := by
  obtain ⟨⟨b, hb⟩, hoffer⟩ := selectCurrent_spec (hs.suppress
    (if (s.expire now).observations.live .stub now (fun _ => true) = [] then false
      else (s.expire now).suppressed))
  exact ⟨⟨b, hb⟩, hoffer.ofSuppressed⟩

/-! ## The pass over the promises -/

/-- The decision after some of the promises: each of these is announced or was withdrawn, and no
prefix is announced, or routed, twice. -/
structure Listed (s : Selector) (d₀ : Decision) (done : List (Prefix × Promise)) (d : Decision) :
    Prop where
  nodup : (d.announcements.map fun a => a.pref64.prefix_).Nodup
  routes : (d.routes.map Rio.prefix_).Nodup
  routed : ∀ p ∈ d.routes.map Rio.prefix_,
    p ∈ d₀.announcements.map (fun a => a.pref64.prefix_) ∨ p ∈ done.map Prod.fst
  kept : d₀.announcements ⊆ d.announcements
  added : ∀ a ∈ d.announcements, a ∈ d₀.announcements ∨
    a.pref64.prefix_ ∈ done.map Prod.fst ∧ a.pref64.lifetime = 0
  settled : ∀ e ∈ done, e.1 ∈ d.announcements.map (fun a => a.pref64.prefix_) ∨ e.2.withdrawn = true

/-- Before any withdrawal the offer lists what it announces. Its routes are its announcements, so
every clause is one of the offer. -/
theorem Offer.listed {d : Decision} (h : s.Offer now ready reachable route d) :
    s.Listed d [] d where
  nodup := h.nodup
  routes := by
    rw [h.routes]
    exact h.nodup
  routed := by
    intro p hp
    rw [h.routes] at hp
    exact .inl hp
  kept := fun _ h => h
  added := fun _ h => .inl h
  settled := fun _ h => nomatch h

/-- One more promised prefix is announced, withdrawn, or past its time. If an announcement has it,
the promise is settled; otherwise it is announced once more without a lifetime while the promise
lasts. -/
theorem Listed.withdraw {d₀ d : Decision} {done : List (Prefix × Promise)} {e : Prefix × Promise}
    (h : s.Listed d₀ done d) (he : e.1 ∉ done.map Prod.fst) :
    s.Listed d₀ (done ++ [e]) (withdraw now ready s d e) := by
  have hmono : ∀ {p}, p ∈ done.map Prod.fst → p ∈ (done ++ [e]).map Prod.fst := by
    intro p hp
    rw [List.map_append]
    exact List.mem_append_left _ hp
  have hlast : e.1 ∈ (done ++ [e]).map Prod.fst :=
    List.mem_map.2 ⟨e, List.mem_append_right _ List.mem_cons_self, rfl⟩
  unfold Selector.withdraw
  split
  · next hany =>
    obtain ⟨a, ha, heq⟩ := List.any_eq_true.1 hany
    refine ⟨h.nodup, h.routes, fun p hp => (h.routed p hp).imp_right hmono, h.kept,
      fun a ha => (h.added a ha).imp_right fun h => ⟨hmono h.1, h.2⟩, ?_⟩
    intro x hx
    cases List.mem_append.1 hx with
    | inl hx => exact h.settled x hx
    | inr hx =>
      rw [List.mem_singleton.1 hx]
      exact .inl (List.mem_map.2 ⟨a, ha, beq_iff_eq.1 heq⟩)
  · next hany =>
    have hnew : e.1 ∉ d.announcements.map fun a => a.pref64.prefix_ := by
      intro hmem
      obtain ⟨a, ha, heq⟩ := List.mem_map.1 hmem
      exact hany (List.any_eq_true.2 ⟨a, ha, beq_iff_eq.2 heq⟩)
    have hroute : e.1 ∉ d.routes.map Rio.prefix_ := by
      intro hmem
      cases h.routed _ hmem with
      | inl hmem =>
        obtain ⟨a, ha, heq⟩ := List.mem_map.1 hmem
        exact hnew (List.mem_map.2 ⟨a, h.kept ha, heq⟩)
      | inr hmem => exact he hmem
    have hroutes : ∀ life, (d.routes ++ [(⟨e.1, .medium, life⟩ : Rio)]).map Rio.prefix_ =
        d.routes.map Rio.prefix_ ++ [e.1] := by
      intro life
      rw [List.map_append]
      rfl
    have hnodup : (d.routes.map Rio.prefix_ ++ [e.1]).Nodup :=
      List.nodup_append_comm.1 (List.nodup_cons.2 ⟨hroute, h.routes⟩)
    have hrouted : ∀ p ∈ d.routes.map Rio.prefix_ ++ [e.1],
        p ∈ d₀.announcements.map (fun a => a.pref64.prefix_) ∨ p ∈ (done ++ [e]).map Prod.fst := by
      intro p hp
      cases List.mem_append.1 hp with
      | inl hp => exact (h.routed p hp).imp_right hmono
      | inr hp =>
        rw [List.mem_singleton.1 hp]
        exact .inr hlast
    have hadded : ∀ a ∈ d.announcements, a ∈ d₀.announcements ∨
        a.pref64.prefix_ ∈ (done ++ [e]).map Prod.fst ∧ a.pref64.lifetime = 0 :=
      fun a ha => (h.added a ha).imp_right fun h => ⟨hmono h.1, h.2⟩
    simp only
    split
    · refine ⟨?_, (hroutes _).symm ▸ hnodup, (hroutes _).symm ▸ hrouted, fun a ha =>
        List.mem_append_left _ (h.kept ha), ?_, ?_⟩
      · rw [List.map_append]
        exact List.nodup_append_comm.1 (List.nodup_cons.2 ⟨hnew, h.nodup⟩)
      · intro a ha
        cases List.mem_append.1 ha with
        | inl ha => exact hadded a ha
        | inr ha =>
          rw [List.mem_singleton.1 ha]
          exact .inr ⟨hlast, rfl⟩
      · intro x hx
        rw [List.map_append]
        cases List.mem_append.1 hx with
        | inl hx => exact (h.settled x hx).imp_left (List.mem_append_left _)
        | inr hx =>
          rw [List.mem_singleton.1 hx]
          exact .inl (List.mem_append_right _ List.mem_cons_self)
    · next hw =>
      refine ⟨h.nodup, (hroutes _).symm ▸ hnodup, (hroutes _).symm ▸ hrouted, h.kept, hadded, ?_⟩
      intro x hx
      cases List.mem_append.1 hx with
      | inl hx => exact h.settled x hx
      | inr hx =>
        rw [List.mem_singleton.1 hx]
        exact .inr (by simpa using hw)

/-- All promised prefixes are gone through, one after the other; the induction is on those still to
come. -/
theorem Listed.foldl {d₀ : Decision} (todo : List (Prefix × Promise)) :
    ∀ {d : Decision} {done : List (Prefix × Promise)}, s.Listed d₀ done d →
      ((done ++ todo).map Prod.fst).Nodup →
      s.Listed d₀ (done ++ todo) (todo.foldl (Selector.withdraw now ready s) d) := by
  induction todo with
  | nil =>
    intro d done h _
    rw [List.append_nil]
    exact h
  | cons e todo ih =>
    intro d done h hnodup
    rw [← List.singleton_append, ← List.append_assoc] at hnodup ⊢
    refine ih (h.withdraw ?_) hnodup
    rw [List.map_append, List.map_append] at hnodup
    have hpair := (List.nodup_append.1 (List.nodup_append.1 hnodup).1).2.2
    intro hmem
    exact hpair _ hmem _ List.mem_cons_self rfl

/-! ## Recording what was announced -/

/-- Every promise is of a prefix of the list. -/
def Among (promised : OrdMap Prefix Promise) (l : List Prefix) : Prop :=
  ∀ p v, promised.get p = some v → p ∈ l

/-- There are no more promises than prefixes they are among. -/
theorem Among.size_le {promised : OrdMap Prefix Promise} {l : List Prefix} (h : Among promised l) :
    promised.size ≤ l.length := by
  have hsub : promised.keys ⊆ l := by
    intro p hp
    obtain ⟨e, he, rfl⟩ := List.mem_map.1 hp
    exact h e.1 e.2 (OrdMap.mem_iff_get.1 he)
  calc promised.size = promised.keys.length := (List.length_map _).symm
    _ ≤ l.length := promised.keys_nodup.length_le_of_subset hsub

/-- A promise for one of the prefixes stays among them. -/
theorem Among.insert {promised : OrdMap Prefix Promise} {l : List Prefix} (h : Among promised l)
    {p : Prefix} (hp : p ∈ l) (v : Promise) : Among (promised.insert p v) l := by
  intro p' v' hget
  rw [OrdMap.get_insert_eq] at hget
  split at hget
  · next heq => exact heq ▸ hp
  · exact h p' v' hget

/-- Promising an announced prefix succeeds, since its prefix is usable. -/
theorem Among.promise {promised : OrdMap Prefix Promise} {l : List Prefix} (h : Among promised l)
    {a : Announcement} (ha : a.pref64.prefix_ ∈ l) (hu : Nat64.usable a.pref64.prefix_ = true) :
    ∃ next, Selector.promise now promised a = some next ∧ Among next l := by
  unfold Selector.promise
  rw [hu, if_neg (by simp)]
  split
  · split
    · exact ⟨_, rfl, h.insert ha _⟩
    · exact ⟨_, rfl, h⟩
  · exact ⟨_, rfl, h.insert ha _⟩

/-- Promising all announced prefixes succeeds; the induction is on the announcements. Each prefix is
in the list, for which there is room. -/
theorem Among.promises {promised : OrdMap Prefix Promise} {l : List Prefix}
    (h : Among promised l) (announcements : List Announcement)
    (hl : ∀ a ∈ announcements, a.pref64.prefix_ ∈ l ∧ Nat64.usable a.pref64.prefix_ = true) :
    ∃ next, announcements.foldlM (Selector.promise now) promised = some next ∧ Among next l := by
  induction announcements generalizing promised with
  | nil => exact ⟨_, rfl, h⟩
  | cons a announcements ih =>
    obtain ⟨hmem, hu⟩ := hl a List.mem_cons_self
    obtain ⟨next, hnext, hamong⟩ : ∃ next, Selector.promise now promised a = some next ∧
      Among next l := h.promise hmem hu
    obtain ⟨last, hlast, hall⟩ := ih hamong fun a ha => hl a (List.mem_cons_of_mem _ ha)
    refine ⟨last, ?_, hall⟩
    rw [List.foldlM_cons, hnext]
    exact hlast

/-- The prefixes that are promised or find a slot. -/
def room (s : Selector) (d : Decision) : List Prefix := s.fresh d.announcements ++ s.promised.keys

/-- An offer and the withdrawals need room for eight prefixes at most. -/
theorem Offer.room_length {d : Decision} (h : s.Offer now ready reachable route d) :
    (s.room d).length ≤ 8 := by
  have := h.slots
  rw [room, List.length_append, OrdMap.keys, List.length_map]
  exact this

/-- An announced prefix is one of those that room is needed for. -/
theorem mem_room {d : Decision} {a : Announcement} (h : a ∈ d.announcements) :
    a.pref64.prefix_ ∈ s.room d := by
  have hmem : a.pref64.prefix_ ∈ d.announcements.map fun a => a.pref64.prefix_ :=
    List.mem_map.2 ⟨a, h, rfl⟩
  cases hc : s.promised.contains a.pref64.prefix_ with
  | true =>
    obtain ⟨v, hv⟩ := OrdMap.contains_iff.1 hc
    exact List.mem_append_right _ (List.mem_map.2 ⟨(_, v), OrdMap.mem_iff_get.2 hv, rfl⟩)
  | false => exact List.mem_append_left _ (List.mem_filter.2 ⟨hmem, by simp [hc]⟩)

/-- So is a prefix that is announced after the withdrawals. -/
theorem Listed.mem_room {d₀ d : Decision} (h : s.Listed d₀ s.promised.entries d)
    {a : Announcement} (ha : a ∈ d.announcements) : a.pref64.prefix_ ∈ s.room d₀ := by
  cases h.added a ha with
  | inl ha => exact Selector.mem_room ha
  | inr ha => exact List.mem_append_right _ ha.1

/-- At most eight prefixes are announced, withdrawn ones included. -/
theorem Listed.length_le {d₀ d : Decision} (h : s.Listed d₀ s.promised.entries d)
    (ho : s.Offer now ready reachable route d₀) : d.announcements.length ≤ 8 := by
  have hsub : (d.announcements.map fun a => a.pref64.prefix_) ⊆ s.room d₀ := by
    intro p hp
    obtain ⟨a, ha, rfl⟩ := List.mem_map.1 hp
    exact h.mem_room ha
  calc d.announcements.length
      = (d.announcements.map fun a => a.pref64.prefix_).length := (List.length_map _).symm
    _ ≤ (s.room d₀).length := h.nodup.length_le_of_subset hsub
    _ ≤ 8 := ho.room_length

/-- Every announced prefix is usable, withdrawn ones included. -/
theorem Listed.usable {d₀ d : Decision} (h : s.Listed d₀ s.promised.entries d)
    (ho : s.Offer now ready reachable route d₀) (hs : s.Inv) {a : Announcement}
    (ha : a ∈ d.announcements) : Nat64.usable a.pref64.prefix_ = true := by
  cases h.added a ha with
  | inl ha => exact ho.usable a ha
  | inr ha =>
    obtain ⟨e, he, heq⟩ := List.mem_map.1 ha.1
    exact hs.promised _ e.2 (heq ▸ OrdMap.mem_iff_get.1 he)

/-- The announcements of a decision can be recorded. They are those that were promised before and
new ones, for which there is room. -/
theorem Listed.advertised {d₀ d : Decision} (h : s.Listed d₀ s.promised.entries d)
    (ho : s.Offer now ready reachable route d₀) (hs : s.Inv) {s' : Selector}
    (hsame : s'.promised = s.promised) : (s'.advertised d.announcements now).1 = .ok () := by
  have hlength := h.length_le ho
  have hstart : Among (s.promised.retain fun _ p => p.until_ > now) (s.room d₀) := by
    intro p v hget
    rw [OrdMap.get_retain_lawful, Option.filter_eq_some_iff] at hget
    exact List.mem_append_right _ (List.mem_map.2 ⟨(p, v), OrdMap.mem_iff_get.2 hget.1, rfl⟩)
  obtain ⟨next, hnext, hamong⟩ : ∃ next, d.announcements.foldlM (Selector.promise now)
      (s.promised.retain fun _ p => p.until_ > now) = some next ∧ Among next (s.room d₀) :=
    hstart.promises d.announcements fun a ha => ⟨h.mem_room ha, h.usable ho hs ha⟩
  have hsize : next.size ≤ 8 := Nat.le_trans hamong.size_le ho.room_length
  unfold Selector.advertised
  rw [if_neg (by omega), hsame, hnext]
  simp only
  rw [if_neg (by omega)]

/-! ## Runs -/

/-- A new selector keeps the invariant. -/
theorem Inv.ofNew {site : Prefix} (h : Selector.new site = .ok s) : s.Inv := by
  cases hl : localOf site with
  | error e =>
    rw [Selector.new, hl] at h
    cases h
  | ok p =>
    rw [Selector.new, hl] at h
    cases h
    exact ⟨Nat.zero_le _, fun _ _ h => (nomatch h), fun _ _ h => (nomatch h),
      fun _ h => (nomatch h), usable_local hl⟩

/-- Letting promises expire keeps the invariant. -/
theorem Inv.expire (h : s.Inv) (now : Nat) : (s.expire now).Inv where
  size := Nat.le_trans (OrdMap.size_retain_le _ _) h.size
  promised := by
    intro p v hget
    simp only [Selector.expire] at hget
    rw [OrdMap.get_retain_lawful, Option.filter_eq_some_iff] at hget
    exact h.promised p v hget.1
  observed := h.observed.retain _
  configured := h.configured
  local_ := h.local_

/-- A new prefix of the site keeps the invariant. -/
theorem Inv.rotateLocal (h : s.Inv) (site : Prefix) (now : Nat) :
    (s.rotateLocal site now).2.Inv := by
  unfold Selector.rotateLocal
  split
  · exact h
  · next p hp =>
    simp only
    split
    · exact h.expire now
    · have hexp := h.expire now
      exact ⟨hexp.size, hexp.promised, hexp.observed, hexp.configured, usable_local hp⟩

/-- A new policy keeps the invariant. The observations are dropped or kept whole, and a prefix of
the policy was checked with it. -/
theorem Inv.configure (h : s.Inv) (policy : Policy) : (s.configure policy).2.Inv := by
  unfold Selector.configure
  split
  · exact h
  · next hvalid =>
    have hpolicy : ∀ p, policy.infrastructure = some p → Nat64.usable p = true := by
      intro p hp
      cases hu : Nat64.usable p with
      | true => rfl
      | false => simp [Policy.validate, hp, hu] at hvalid
    have hnone : Observations.Usable ⟨.empty⟩ := fun _ _ h => nomatch h
    split
    · split
      · simp only
        split
        · exact ⟨h.size, h.promised, h.observed, h.configured, h.local_⟩
        · exact ⟨h.size, h.promised, hnone, hpolicy, h.local_⟩
      · exact ⟨h.size, h.promised, hnone, hpolicy, h.local_⟩
    · exact ⟨h.size, h.promised, h.observed, hpolicy, h.local_⟩

/-- What is received keeps the invariant. -/
theorem Inv.receive (h : s.Inv) (link : Link) (packet : Bytes) (now : Nat) :
    (s.receive link packet now).2.Inv := by
  unfold Selector.receive
  split
  · exact h
  · exact ⟨h.size, h.promised, h.observed.receive link packet now, h.configured, h.local_⟩

/-- The loss of a link keeps the invariant. -/
theorem Inv.linkLost (h : s.Inv) (link : Link) : (s.linkLost link).Inv :=
  ⟨h.size, h.promised, h.observed.retain _, h.configured, h.local_⟩

/-- A failed announcement keeps the invariant. -/
theorem Inv.announcementFailed (h : s.Inv) (mode : Mode) (now : Nat) :
    (s.announcementFailed mode now).Inv := by
  obtain ⟨b, hb⟩ : ∃ b, s.announcementFailed mode now = _ := announcementFailed_eq mode
  rw [hb]
  exact h.suppress b

/-- Promises are made for usable prefixes: one that is not usable makes the loop fail. -/
theorem promised_usable {a : Announcement} {promised next : OrdMap Prefix Promise}
    (h : Selector.promise now promised a = some next)
    (hp : ∀ p v, promised.get p = some v → Nat64.usable p = true) :
    ∀ p v, next.get p = some v → Nat64.usable p = true := by
  have hinsert : ∀ v, Nat64.usable a.pref64.prefix_ = true → ∀ p v',
      (promised.insert a.pref64.prefix_ v).get p = some v' → Nat64.usable p = true := by
    intro v hu p v' hget
    rw [OrdMap.get_insert_eq] at hget
    split at hget
    · next heq => exact heq ▸ hu
    · exact hp p v' hget
  unfold Selector.promise at h
  split at h
  · cases h
  · next hu =>
    replace hu : Nat64.usable a.pref64.prefix_ = true := by simpa using hu
    split at h
    · split at h
      · cases h
        exact hinsert _ hu
      · cases h
        exact hp
    · cases h
      exact hinsert _ hu

/-- What is advertised keeps the invariant. By induction on the announcements; a loop that fails
leaves the promises as they were. -/
theorem Inv.advertised (h : s.Inv) (announcements : List Announcement) (now : Nat) :
    (s.advertised announcements now).2.Inv := by
  have hfold : ∀ (l : List Announcement) (promised next : OrdMap Prefix Promise),
      l.foldlM (Selector.promise now) promised = some next →
      (∀ p v, promised.get p = some v → Nat64.usable p = true) →
      ∀ p v, next.get p = some v → Nat64.usable p = true := by
    intro l
    induction l with
    | nil =>
      intro promised next hnext hp
      cases hnext
      exact hp
    | cons a l ih =>
      intro promised next hnext hp
      rw [List.foldlM_cons] at hnext
      obtain ⟨mid, hmid, hrest⟩ := Option.bind_eq_some_iff.1 hnext
      exact ih mid next hrest (promised_usable hmid hp)
  unfold Selector.advertised
  split
  · exact h
  · split
    · exact h
    · next next hnext =>
      split
      · exact h
      · next hsize =>
        exact ⟨Nat.le_of_not_lt hsize, hfold _ _ _ hnext (h.expire now).promised, h.observed,
          h.configured, h.local_⟩

/-- A selection makes an offer, adds the withdrawals of what was promised, and changes nothing but
the mark and what has expired. -/
theorem select_eq (hs : s.Inv) :
    ∃ b d₀, (s.expire now).Offer now ready reachable route d₀ ∧
      (s.expire now).Listed d₀ (s.expire now).promised.entries
        (s.select now ready reachable route).1 ∧
      (s.select now ready reachable route).2 = { s.expire now with
        suppressed := b
        status := ((s.select now ready reachable route).1.mode,
          (s.select now ready reachable route).1.reason) } := by
  obtain ⟨⟨b, hb⟩, hoffer⟩ : _ ∧ (s.expire now).Offer now ready reachable route
    (s.selectActive now ready reachable route).1 := selectActive_spec (hs.expire now)
  unfold Selector.select
  generalize s.selectActive now ready reachable route = r at hb hoffer ⊢
  obtain ⟨d, s'⟩ := r
  cases hb
  exact ⟨b, d, hoffer, hoffer.listed.foldl (s.expire now).promised.entries
    (OrdMap.keys_nodup (s.expire now).promised), rfl⟩

end Deciding

/-- The selectors that a run reaches, with the announcements of its latest decision. -/
inductive Reached : Selector → List Announcement → Prop
  | new {site s} : Selector.new site = .ok s → Reached s []
  | configure {s l} (policy : Policy) : Reached s l → Reached (s.configure policy).2 l
  | receive {s l} (link : Link) (packet : Bytes) (now : Nat) :
      Reached s l → Reached (s.receive link packet now).2 l
  | linkLost {s l} (link : Link) : Reached s l → Reached (s.linkLost link) l
  | expire {s l} (now : Nat) : Reached s l → Reached (s.expire now) l
  | rotateLocal {s l} (site : Prefix) (now : Nat) :
      Reached s l → Reached (s.rotateLocal site now).2 l
  | select {s l} (now : Nat) (ready : Readiness) (reachable : Link → Ipv6Addr → Bool)
      (route : Prefix → Option Nat) : Reached s l →
      Reached (s.select now ready reachable route).2
        (s.select now ready reachable route).1.announcements
  | announcementFailed {s l} (mode : Mode) (now : Nat) :
      Reached s l → Reached (s.announcementFailed mode now) l
  | advertised {s l} (now : Nat) : Reached s l → Reached (s.advertised l now).2 l

/-- A selection keeps the invariant. -/
theorem Inv.select {s : Selector} (h : s.Inv) (now : Nat) (ready : Readiness)
    (reachable : Link → Ipv6Addr → Bool) (route : Prefix → Option Nat) :
    (s.select now ready reachable route).2.Inv := by
  obtain ⟨b, -, -, -, heq⟩ : ∃ b d₀, (s.expire now).Offer now ready reachable route d₀ ∧ _ :=
    select_eq h
  have hexp := h.expire now
  rw [heq]
  exact ⟨hexp.size, hexp.promised, hexp.observed, hexp.configured, hexp.local_⟩

/-- Every selector that is reached keeps the invariant. -/
theorem Reached.inv {s : Selector} {l : List Announcement} (h : Reached s l) : s.Inv := by
  induction h with
  | new h => exact .ofNew h
  | configure policy _ ih => exact ih.configure policy
  | receive link packet now _ ih => exact ih.receive link packet now
  | linkLost link _ ih => exact ih.linkLost link
  | expire now _ ih => exact ih.expire now
  | rotateLocal site now _ ih => exact ih.rotateLocal site now
  | select now ready reachable route _ ih => exact ih.select now ready reachable route
  | announcementFailed mode now _ ih => exact ih.announcementFailed mode now
  | advertised now _ ih => exact ih.advertised _ now

/-- What is seen after the expiry was seen before it. One case for each source of an
announcement. -/
theorem Backed.ofExpire {s : Selector} {now : Nat} {ready : Readiness}
    {reachable : Link → Ipv6Addr → Bool} {route : Prefix → Option Nat} {a : Announcement}
    (h : (s.expire now).Backed now ready reachable route a) :
    s.Backed now ready reachable route a := by
  obtain ⟨hmod, hstub, hrest⟩ := h
  refine ⟨hmod, hstub, ?_⟩
  cases hsource : a.source with
  | local_ =>
    rw [hsource] at hrest
    exact hrest
  | configured =>
    rw [hsource] at hrest
    exact hrest
  | infrastructure =>
    rw [hsource] at hrest
    obtain ⟨hreturned, t, ⟨router, hget, hnow, hreach⟩, hwithin⟩ := hrest
    refine ⟨hreturned, t, ⟨router, ?_, hnow, hreach⟩, hwithin⟩
    simp only [Selector.expire, Observations.expire] at hget
    rw [OrdMap.get_retain_lawful, Option.filter_eq_some_iff] at hget
    exact hget.1

/-- Whatever a run did, what a selector decides can be recorded, names no prefix twice, leaves no
live promise out, and is backed for as long as it is announced. -/
theorem selection_admissible {s : Selector} {latest : List Announcement} (h : Reached s latest) :
    s.promised.size ≤ 8 ∧
      ∀ now ready reachable route,
        let d := (s.select now ready reachable route).1
        d.announcements.length ≤ 8 ∧
          (d.announcements.map fun a => a.pref64.prefix_).Nodup ∧
          (d.routes.map Rio.prefix_).Nodup ∧
          (∀ p v, s.promised.get p = some v → v.until_ > now →
            p ∈ d.announcements.map (fun a => a.pref64.prefix_) ∨ v.withdrawn = true) ∧
          ((s.select now ready reachable route).2.advertised d.announcements now).1 = .ok () ∧
          ∀ a ∈ d.announcements, 0 < a.pref64.lifetime → s.Backed now ready reachable route a := by
  have hs := h.inv
  refine ⟨hs.size, ?_⟩
  intro now ready reachable route
  obtain ⟨b, d₀, hoffer, hlisted, heq⟩ : ∃ b d₀, (s.expire now).Offer now ready reachable route d₀ ∧
    _ := select_eq hs
  refine ⟨hlisted.length_le hoffer, hlisted.nodup, hlisted.routes, ?_, ?_, ?_⟩
  · intro p v hget hlive
    have hmem : (p, v) ∈ (s.expire now).promised.entries := by
      refine OrdMap.mem_iff_get.2 ?_
      simp only [Selector.expire]
      rw [OrdMap.get_retain_lawful, hget]
      simp [hlive]
    exact hlisted.settled (p, v) hmem
  · rw [heq]
    exact hlisted.advertised hoffer (hs.expire now) rfl
  · intro a ha hpos
    cases hlisted.added a ha with
    | inl ha => exact (hoffer.backed a ha).ofExpire
    | inr ha => omega

/-- What a site with a translator is ready for. -/
def siteReady : Readiness := ⟨none, some 3600000, some 3600000, true⟩

/-- The prefix of a translator outside of the site. -/
def sitePolicy : Policy := ⟨true, some ⟨.ofValue (0x64ff9b <<< 96), 96⟩, true⟩

/-- A site that has promised its own prefix, and is then configured to use another. -/
def siteSelector (s : Selector) : Selector :=
  let r := s.select 0 siteReady (fun _ _ => false) fun _ => none
  ((r.2.advertised r.1.announcements 0).2.configure sitePolicy).2

/-- Once it is routed, the other prefix is announced, and the promise of the site's own is
withdrawn. -/
theorem selection_admissible_site :
    ∃ s, Selector.new ⟨.ofValue (0xfd00 <<< 112), 48⟩ = .ok s ∧ (siteSelector s).promised.size = 1 ∧
      let r := (siteSelector s).select 1000 siteReady (fun _ _ => false) fun _ => some 61000
      (r.1.announcements.map fun a => (a.pref64.lifetime, a.source)) =
        [(56, .configured), (0, .local_)] ∧
        (r.2.advertised r.1.announcements 1000).1 = .ok () ∧
        ∀ a ∈ r.1.announcements, 0 < a.pref64.lifetime →
          (siteSelector s).Backed 1000 siteReady (fun _ _ => false) (fun _ => some 61000) a := by
  refine ⟨_, rfl, by decide +kernel, by decide +kernel, ?_⟩
  have hnew := @Reached.new ⟨.ofValue (0xfd00 <<< 112), 48⟩ _ rfl
  have hreached := ((hnew.select 0 siteReady (fun _ _ => false) fun _ =>
    none).advertised 0).configure
    sitePolicy
  exact ((selection_admissible hreached).2 1000 siteReady (fun _ _ => false)
    fun _ => some 61000).2.2.2.2

end Selector

end SnacMachine.Nat64
