import SnacMachine.Nat64.Announcing
import SnacMachine.Router.Ingress

/-!
# Prefixes that stay blocked

While NAT64 is disabled, packets to the prefixes that it knew are blocked. What the capacity of the
set of blocked prefixes rests on is kept by every operation (`Bounded`): nothing is blocked while
NAT64 is enabled, nothing is observed while it is disabled, and a link has 32 observations at most.
-/

namespace SnacMachine.Nat64

open Ip

namespace Selector

variable {s s' : Selector} {l l' : List Announcement}

/-- One operation on a selector whose latest decision made some announcements, with the prefix that
it configures. -/
inductive Step (s : Selector) (l : List Announcement) :
    Selector → List Announcement → Option Prefix → Prop
  | configure (policy : Policy) : (s.configure policy).1 = .ok () →
      Step s l (s.configure policy).2 l policy.infrastructure
  | refused (policy : Policy) {e : IoError} : (s.configure policy).1 = .error e →
      Step s l (s.configure policy).2 l none
  | receive (link : Link) (packet : Bytes)
      (now : Nat) : Step s l (s.receive link packet now).2 l none
  | linkLost (link : Link) : Step s l (s.linkLost link) l none
  | expire (now : Nat) : Step s l (s.expire now) l none
  | rotateLocal (site : Prefix) (now : Nat) : Step s l (s.rotateLocal site now).2 l none
  | select (now : Nat) (ready : Readiness) (reachable : Link → Ipv6Addr → Bool)
      (route : Prefix → Option Nat) : Step s l (s.select now ready reachable route).2
        (s.select now ready reachable route).1.announcements none
  | announcementFailed (mode : Mode) (now : Nat) : Step s l (s.announcementFailed mode now) l none
  | advertised (now : Nat) : Step s l (s.advertised l now).2 l none

/-- A step from a reached selector reaches the next one. One case for each kind of step, which is a
call of the selector. -/
theorem Reached.step {p : Option Prefix} (h : Reached s l) (hstep : Step s l s' l' p) :
    Reached s' l' := by
  cases hstep with
  | configure policy _ => exact h.configure policy
  | refused policy _ => exact h.configure policy
  | receive link packet now => exact h.receive link packet now
  | linkLost link => exact h.linkLost link
  | expire now => exact h.expire now
  | rotateLocal site now => exact h.rotateLocal site now
  | select now ready reachable route => exact h.select now ready reachable route
  | announcementFailed mode now => exact h.announcementFailed mode now
  | advertised now => exact h.advertised now

/-! ## Sets of prefixes -/

/-- A set is extended by the listed prefixes. By induction on the prefixes, each of which is
inserted. -/
theorem contains_extend {set : OrdMap Prefix Unit} {ps : List Prefix} {p : Prefix} :
    (extend set ps).contains p = true ↔ set.contains p = true ∨ p ∈ ps := by
  induction ps generalizing set with
  | nil => simp [extend]
  | cons q ps ih =>
    have hcons : extend set (q :: ps) = extend (set.insert q ()) ps := rfl
    rw [hcons, ih]
    have hinsert : (set.insert q ()).contains p = true ↔ set.contains p = true ∨ p = q := by
      simp only [OrdMap.contains, OrdMap.get_insert_eq]
      by_cases hq : q = p
      · simp [hq]
      · simp [hq, Ne.symm hq]
    rw [hinsert, List.mem_cons, or_assoc]

/-- The keys of a set are its members. -/
theorem mem_keys {set : OrdMap Prefix Unit} {p : Prefix} :
    p ∈ set.keys ↔ set.contains p = true := by
  rw [OrdMap.contains_iff, OrdMap.keys, List.mem_map]
  constructor
  · rintro ⟨e, he, rfl⟩
    exact ⟨e.2, OrdMap.mem_iff_get.1 he⟩
  · rintro ⟨v, hv⟩
    exact ⟨(p, v), OrdMap.mem_iff_get.2 hv, rfl⟩

/-- A set has no more prefixes than a list that names them all. -/
theorem size_le_of_forall {set : OrdMap Prefix Unit} {ps : List Prefix}
    (h : ∀ p, set.contains p = true → p ∈ ps) : set.size ≤ ps.length := by
  have hsub : set.keys ⊆ ps := fun p hp => h p (mem_keys.1 hp)
  have := (List.subperm_of_subset set.keys_nodup hsub).length_le
  rwa [OrdMap.keys, List.length_map] at this

/-- A blocked prefix blocks what it contains. -/
theorem blocksTo_of_contains {d : Ipv6Addr} {p : Prefix} (hoff : s.policy.enabled = false)
    (hp : s.blocked.contains p = true) (hd : p.contains d = true) : Router.blocksTo s d = true := by
  have hany : s.blocked.keys.any (fun p => p.contains d) = true := by
    exact List.any_eq_true.2 ⟨p, mem_keys.2 hp, hd⟩
  simp [Router.blocksTo, hoff, hany]

/-! ## What every operation keeps -/

/-- The number of prefixes that are observed on a link. -/
def observedOn (s : Selector) (link : Link) : Nat :=
  (s.observations.entries.keys.filter fun k => k.1 == link).length

/-- What the capacity rests on. -/
structure Bounded (s : Selector) : Prop where
  clear : s.policy.enabled = true → s.blocked = .empty
  quiet : s.policy.enabled = false → s.observations.entries = .empty
  links : ∀ link, s.observedOn link ≤ 32

/-- Fewer observations are fewer on each link. -/
theorem observedOn_retain (p : Link × Ipv6Addr × Prefix → Nat → Bool) (link : Link) :
    observedOn { s with observations := ⟨s.observations.entries.retain p⟩ } link ≤
    s.observedOn link := by
  refine List.Sublist.length_le (List.Sublist.filter _ ?_)
  exact List.filter_sublist.map _

/-- A new selector is within the limits. -/
theorem Bounded.ofNew {site : Prefix} (h : Selector.new site = .ok s) : s.Bounded := by
  cases hl : localOf site with
  | error e =>
    rw [Selector.new, hl] at h
    cases h
  | ok p =>
    rw [Selector.new, hl] at h
    cases h
    exact ⟨fun _ => rfl, by simp, fun _ => Nat.zero_le _⟩

/-- Fewer observations. -/
theorem Bounded.retain (h : s.Bounded) (p : Link × Ipv6Addr × Prefix → Nat → Bool) :
    Bounded { s with observations := ⟨s.observations.entries.retain p⟩ } where
  clear := h.clear
  quiet hoff := by
    show s.observations.entries.retain p = .empty
    rw [h.quiet hoff]
    rfl
  links link := Nat.le_trans (observedOn_retain p link) (h.links link)

/-- Letting promises expire keeps the limits. -/
theorem Bounded.expire (h : s.Bounded) (now : Nat) : (s.expire now).Bounded :=
  ⟨h.clear, (h.retain _).quiet, (h.retain _).links⟩

/-- The loss of a link keeps the limits. -/
theorem Bounded.linkLost (h : s.Bounded) (link : Link) : (s.linkLost link).Bounded := h.retain _

/-- A new prefix of the site keeps the limits. -/
theorem Bounded.rotateLocal (h : s.Bounded) (site : Prefix) (now : Nat) :
    (s.rotateLocal site now).2.Bounded := by
  unfold Selector.rotateLocal
  split
  · exact h
  · simp only
    split
    · exact h.expire now
    · exact ⟨(h.expire now).clear, (h.expire now).quiet, (h.expire now).links⟩

/-- An option changes nothing on other links. By induction on the options, each of which writes
under the link that it was received on. -/
theorem observe_other {link link' : Link} {source : Ipv6Addr} {now : Nat}
    {m : OrdMap (Link × Ipv6Addr × Prefix) Nat} {os : List NdOption} (hne : link' ≠ link)
    {k : Link × Ipv6Addr × Prefix} (hk : k.1 = link') :
    (os.foldl (Observations.observe link source now) m).get k = m.get k := by
  induction os generalizing m with
  | nil => rfl
  | cons o os ih =>
    refine ih.trans ?_
    unfold Observations.observe
    split
    · rfl
    · next p _ =>
      have hkey : (link, source, p.prefix_) ≠ k := by
        rintro rfl
        exact hne hk.symm
      split
      · rw [OrdMap.get_remove_eq, if_neg hkey.symm]
      · rw [OrdMap.get_insert_eq, if_neg hkey]

/-- Observations stay within the limit on every link, for a new one is refused where there is no
room. -/
theorem Observations.receive_links {o : Observations} {link : Link} {packet : Bytes} {now : Nat}
    (h : ∀ link, (o.entries.keys.filter fun k => k.1 == link).length ≤ 32) (link' : Link) :
    ((o.receive link packet now).2.entries.keys.filter fun k => k.1 == link').length ≤ 32 := by
  unfold Observations.receive
  split
  · exact h link'
  split
  · exact h link'
  split
  · exact h link'
  split
  · exact h link'
  simp only
  split
  · exact h link'
  · next hroom =>
    by_cases hl : link' = link
    · subst hl
      exact Nat.le_of_not_lt hroom
    · refine Nat.le_trans ?_ (h link')
      refine List.Nodup.length_le_of_subset ((OrdMap.keys_nodup _).filter _) fun k hk => ?_
      obtain ⟨hmem, hlink⟩ := List.mem_filter.1 hk
      have hk' : k.1 = link' := by simpa using hlink
      obtain ⟨e, he, rfl⟩ := List.mem_map.1 hmem
      have hget := OrdMap.mem_iff_get.1 he
      rw [observe_other hl hk', OrdMap.get_retain_lawful, Option.filter_eq_some_iff] at hget
      exact List.mem_filter.2 ⟨List.mem_map.2 ⟨e, OrdMap.mem_iff_get.2 hget.1, rfl⟩, hlink⟩

/-- What is received keeps the limits. -/
theorem Bounded.receive (h : s.Bounded) (link : Link) (packet : Bytes) (now : Nat) :
    (s.receive link packet now).2.Bounded := by
  unfold Selector.receive
  split
  · exact h
  · next hon =>
    have hon : s.policy.enabled = true := by simpa using hon
    refine ⟨h.clear, fun hoff => ?_, Observations.receive_links h.links⟩
    exact nomatch hon.symm.trans hoff

/-! ## Configuration -/

/-- The prefixes that are observed. -/
def seen (s : Selector) : List Prefix := s.observations.entries.keys.map fun k => k.2.2

/-- The prefixes that NAT64 is known by when it is disabled with a policy. -/
def known (s : Selector) (policy : Policy) : List Prefix :=
  s.seen ++ s.promised.keys ++ s.policy.infrastructure.toList ++ policy.infrastructure.toList

/-- At most so many prefixes are seen on both links. The keys are those of the one link and those of
the other, with the limit for each. -/
theorem Bounded.seen_length (h : s.Bounded) : s.seen.length ≤ 64 := by
  have hsplit : ∀ ks : List (Link × Ipv6Addr × Prefix),
      ks.length = (ks.filter fun k => k.1 == .ail).length + (ks.filter fun k =>
        k.1 == .stub).length := by
    intro ks
    induction ks with
    | nil => rfl
    | cons k ks ih =>
      obtain ⟨link, rest⟩ := k
      cases link with
      | ail => simp [ih]; omega
      | stub => simp [ih]; omega
  have hail :
      (s.observations.entries.keys.filter fun k => k.1 == Link.ail).length ≤ 32 := h.links .ail
  have hstub :
      (s.observations.entries.keys.filter fun k => k.1 == Link.stub).length ≤ 32 := h.links .stub
  rw [seen, List.length_map, hsplit]
  omega

/-- There is room for everything that an enabled NAT64 is known by: the eight promised prefixes, at
most 64 that were seen, and the two policies' own. -/
theorem Bounded.known_length (h : s.Bounded) (hs : s.Inv) (policy : Policy) :
    (s.known policy).length ≤ 74 := by
  have hopt : ∀ o : Option Prefix, o.toList.length ≤ 1 := by
    intro o
    cases o <;> simp
  have hsize : s.promised.keys.length ≤ 8 := by
    rw [OrdMap.keys, List.length_map]
    exact hs.size
  have hold := hopt s.policy.infrastructure
  have hnew := hopt policy.infrastructure
  have hseen := h.seen_length
  simp only [known, List.length_append]
  omega

/-- There is room for everything that a disabled policy has to block. -/
theorem Bounded.room (h : s.Bounded) (hs : s.Inv) (hon : s.policy.enabled = true)
    (policy : Policy) :
    (extend (extend s.blocked s.seen) (s.known policy)).size ≤ 74 := by
  refine Nat.le_trans (size_le_of_forall fun p hp => ?_) (h.known_length hs policy)
  rw [contains_extend, contains_extend, h.clear hon] at hp
  rcases hp with (hp | hp) | hp
  · exact nomatch hp
  · simp only [known, List.mem_append]
    exact .inl (.inl (.inl hp))
  · exact hp

/-- A change of policy that fails changes nothing. The one failure after the checks is a set of
blocked prefixes that is full; it cannot be full while NAT64 is on, and when it is off nothing is
blocked anew. -/
theorem Bounded.configure_error (h : s.Bounded) (hs : s.Inv) {policy : Policy} {e : IoError}
    (herr : (s.configure policy).1 = .error e) : (s.configure policy).2 = s := by
  unfold Selector.configure at herr ⊢
  split
  · rfl
  · next hvalid =>
    rw [hvalid] at herr
    simp only at herr
    split
    · next hne =>
      rw [if_pos hne] at herr
      split
      · next hoff =>
        rw [if_pos hoff] at herr
        simp only at herr ⊢
        split
        · next hfull =>
          cases hon : s.policy.enabled with
          | true => exact absurd (h.room hs hon policy) (Nat.not_le_of_lt hfull)
          | false =>
            have hnone : s.observations.entries = .empty := h.quiet hon
            simp [hnone, OrdMap.keys, OrdMap.empty, extend]
        · next hroom =>
          rw [if_neg hroom] at herr
          cases herr
      · next hoff =>
        rw [if_neg hoff] at herr
        cases herr
    · next heq =>
      rw [if_neg heq] at herr
      cases herr

/-- What a change of policy that succeeds leaves: the policy, and when it disables NAT64 all that
was blocked or known before. -/
theorem configure_ok {policy : Policy} (hok : (s.configure policy).1 = .ok ()) :
    (s.configure policy).2.policy = policy ∧ (s.configure policy).2.local_ = s.local_ ∧
      (policy = s.policy ∧ (s.configure policy).2 = { s with policy } ∨
        (s.configure policy).2.observations.entries = .empty ∧
          (policy.enabled = true → (s.configure policy).2.blocked = .empty) ∧
          (policy.enabled = false → (s.configure policy).2.blocked =
            extend (extend s.blocked s.seen) (s.known policy))) := by
  unfold Selector.configure at hok ⊢
  split
  · next hvalid =>
    rw [hvalid] at hok
    cases hok
  · next hvalid =>
    rw [hvalid] at hok
    simp only at hok
    split
    · next hne =>
      rw [if_pos hne] at hok
      split
      · next hoff =>
        rw [if_pos hoff] at hok
        simp only at hok ⊢
        split
        · next hfull =>
          rw [if_pos hfull] at hok
          cases hok
        · refine ⟨rfl, rfl, .inr ⟨rfl, fun hon => ?_, fun _ => rfl⟩⟩
          simp [hon] at hoff
      · next hon =>
        refine ⟨rfl, rfl, .inr ⟨rfl, fun _ => rfl, fun hoff => ?_⟩⟩
        simp [hoff] at hon
    · next heq => exact ⟨rfl, rfl, .inl ⟨(not_not.1 heq).symm, rfl⟩⟩

/-- An enabled NAT64 can always be disabled. The policy changes, and the set of blocked prefixes has
room for all that it is known by. -/
theorem Bounded.disable (h : s.Bounded) (hs : s.Inv) (hon : s.policy.enabled = true)
    {policy : Policy} (hvalid : policy.validate = .ok ()) (hoff : policy.enabled = false) :
    (s.configure policy).1 = .ok () := by
  have hne : s.policy ≠ policy := by
    rintro rfl
    exact nomatch hon.symm.trans hoff
  have hroom : ¬ (extend (extend s.blocked s.seen) (s.known policy)).size > 74 :=
    Nat.not_lt_of_le (h.room hs hon policy)
  unfold Selector.configure
  rw [hvalid]
  simp only [if_pos hne, hoff, Bool.not_false, if_true]
  exact congrArg Prod.fst (if_neg hroom)

/-- A new policy keeps the limits. A policy that is refused changes nothing, and one that is taken
drops the observations or leaves them. -/
theorem Bounded.configure (h : s.Bounded) (hs : s.Inv) (policy : Policy) :
    (s.configure policy).2.Bounded := by
  cases hres : (s.configure policy).1 with
  | error e =>
    rw [h.configure_error hs hres]
    exact h
  | ok u =>
    obtain ⟨hpolicy, -, ⟨hsame, heq⟩ | ⟨hnone, hon, -⟩⟩ := configure_ok hres
    · rw [heq, hsame]
      exact h
    · refine ⟨fun henabled => hon (hpolicy ▸ henabled), fun _ => hnone, fun link => ?_⟩
      rw [observedOn, hnone]
      exact Nat.zero_le _

/-- What is advertised keeps the limits. -/
theorem Bounded.advertised (h : s.Bounded) (announcements : List Announcement) (now : Nat) :
    (s.advertised announcements now).2.Bounded := by
  unfold Selector.advertised
  split
  · exact h
  · split
    · exact h
    · split
      · exact h
      · exact ⟨h.clear, h.quiet, h.links⟩

/-- A decision changes nothing that expiry does not, but for the marks of the selector. -/
theorem select_marks (hs : s.Inv) (now : Nat) (ready : Readiness)
    (reachable : Link → Ipv6Addr → Bool) (route : Prefix → Option Nat) :
    ∃ b status, (s.select now ready reachable route).2 =
      { s.expire now with suppressed := b, status } := by
  obtain ⟨b, -, -, -, heq⟩ : ∃ b d₀, (s.expire now).Offer now ready reachable route d₀ ∧ _ :=
    select_eq hs
  exact ⟨b, _, heq⟩

/-- Every selector that is reached is within the limits. By induction on how it was reached, with
one case for each operation. -/
theorem Reached.bounded (h : Reached s l) : s.Bounded := by
  induction h with
  | new h => exact .ofNew h
  | configure policy hs ih => exact ih.configure hs.inv policy
  | receive link packet now _ ih => exact ih.receive link packet now
  | linkLost link _ ih => exact ih.linkLost link
  | expire now _ ih => exact ih.expire now
  | rotateLocal site now _ ih => exact ih.rotateLocal site now
  | select now ready reachable route hs ih =>
    obtain ⟨b, status, heq⟩ := select_marks hs.inv now ready reachable route
    rw [heq]
    exact ⟨(ih.expire now).clear, (ih.expire now).quiet, (ih.expire now).links⟩
  | announcementFailed mode now _ ih =>
    obtain ⟨b, hb⟩ : ∃ b, Selector.announcementFailed _ mode now = _ := announcementFailed_eq mode
    rw [hb]
    exact ⟨ih.clear, ih.quiet, ih.links⟩
  | advertised now _ ih => exact ih.advertised _ now

/-! ## While NAT64 is disabled -/

/-- The selectors since NAT64 was disabled by a policy, with the prefixes that were configured
since. -/
inductive Disabled (s : Selector) (l : List Announcement) (policy : Policy) :
    Selector → List Announcement → List Prefix → Prop
  | now (hok : (s.configure policy).1 = .ok ()) :
      Disabled s l policy (s.configure policy).2 l policy.infrastructure.toList
  | step {s' s'' : Selector} {l' l'' : List Announcement} {ps : List Prefix} {p : Option Prefix}
      (since : Disabled s l policy s' l' ps) (hstep : Step s' l' s'' l'' p)
      (hoff : s''.policy.enabled = false) : Disabled s l policy s'' l'' (ps ++ p.toList)

/-- While NAT64 stays disabled, what is blocked stays blocked and what is configured is blocked. One
case for each step: a prefix is released only when NAT64 is enabled, so that in the others the set
is the same or larger. -/
theorem Step.blocked {p : Option Prefix} (h : Reached s l) (hoff : s.policy.enabled = false)
    (hstep : Step s l s' l' p) (hoff' : s'.policy.enabled = false)
    (hconfigured : ∀ q, s.policy.infrastructure = some q → s.blocked.contains q = true) :
    (∀ q, s.blocked.contains q = true → s'.blocked.contains q = true) ∧
      (∀ q, s'.policy.infrastructure = some q → s'.blocked.contains q = true) ∧
      ∀ q ∈ p.toList, s'.blocked.contains q = true := by
  have hkept (hblocked : s'.blocked = s.blocked) (hpolicy : s'.policy = s.policy) :
      (∀ q, s.blocked.contains q = true → s'.blocked.contains q = true) ∧
        (∀ q, s'.policy.infrastructure = some q → s'.blocked.contains q = true) ∧
        ∀ q ∈ (none : Option Prefix).toList, s'.blocked.contains q = true := by
    rw [hblocked, hpolicy]
    exact ⟨fun q hq => hq, hconfigured, nofun⟩
  cases hstep with
  | configure policy hok =>
    obtain ⟨hpolicy, -, ⟨hsame, heq⟩ | ⟨-, -, hnew⟩⟩ := configure_ok hok
    · rw [heq, hsame]
      refine ⟨fun q hq => hq, hconfigured, fun q hq => hconfigured q ?_⟩
      exact Option.mem_toList.1 hq
    · have hblocked := hnew (hpolicy ▸ hoff')
      rw [hblocked, hpolicy]
      have hinfra : ∀ q, policy.infrastructure = some q →
          (extend (extend s.blocked s.seen) (s.known policy)).contains q = true := by
        intro q hq
        simp [contains_extend, known, hq]
      refine ⟨fun q hq => ?_, hinfra, fun q hq => hinfra q (Option.mem_toList.1 hq)⟩
      simp [contains_extend, hq]
  | refused policy herr =>
    rw [h.bounded.configure_error h.inv herr]
    exact ⟨fun q hq => hq, hconfigured, nofun⟩
  | receive link packet now =>
    refine hkept ?_ ?_
    · simp [Selector.receive, hoff]
    · simp [Selector.receive, hoff]
  | linkLost link => exact hkept rfl rfl
  | expire now => exact hkept rfl rfl
  | rotateLocal site now =>
    unfold Selector.rotateLocal at hkept hoff' ⊢
    split
    · exact ⟨fun q hq => hq, hconfigured, nofun⟩
    · simp only
      split
      · exact ⟨fun q hq => hq, hconfigured, nofun⟩
      · exact ⟨fun q hq => hq, hconfigured, nofun⟩
  | select now ready reachable route =>
    obtain ⟨b, status, heq⟩ := select_marks h.inv now ready reachable route
    rw [heq] at hkept ⊢
    exact hkept rfl rfl
  | announcementFailed mode now =>
    obtain ⟨b, hb⟩ : ∃ b, s.announcementFailed mode now = _ := announcementFailed_eq mode
    rw [hb] at hkept ⊢
    exact hkept rfl rfl
  | advertised now =>
    unfold Selector.advertised
    split
    · exact ⟨fun q hq => hq, hconfigured, nofun⟩
    · split
      · exact ⟨fun q hq => hq, hconfigured, nofun⟩
      · split
        · exact ⟨fun q hq => hq, hconfigured, nofun⟩
        · exact ⟨fun q hq => hq, hconfigured, nofun⟩

/-- The prefixes that NAT64 was known by when it was disabled, and those configured since, are
blocked. -/
theorem Disabled.blocked {policy : Policy} {ps : List Prefix} (h : Reached s l)
    (hon : s.policy.enabled = true) (hoff : policy.enabled = false)
    (since : Disabled s l policy s' l' ps) :
    Reached s' l' ∧ s'.policy.enabled = false ∧
      (∀ p ∈ s.known policy ++ ps, s'.blocked.contains p = true) ∧
      ∀ p, s'.policy.infrastructure = some p → s'.blocked.contains p = true := by
  induction since with
  | now hok =>
    obtain ⟨hpolicy, -, ⟨hsame, -⟩ | ⟨-, -, hnew⟩⟩ := configure_ok hok
    · rw [hsame] at hoff
      exact nomatch hon.symm.trans hoff
    · have hinfra : ∀ p, policy.infrastructure = some p → p ∈ s.known policy := by
        intro p hp
        simp [known, hp]
      refine ⟨h.configure policy, by rw [hpolicy]; exact hoff, fun p hp => ?_, fun p hp => ?_⟩
      · rw [hnew hoff, contains_extend]
        rcases List.mem_append.1 hp with hp | hp
        · exact .inr hp
        · exact .inr (hinfra p (Option.mem_toList.1 hp))
      · rw [hnew hoff, contains_extend]
        rw [hpolicy] at hp
        exact .inr (hinfra p hp)
  | step _ hstep hoff'' ih =>
    obtain ⟨hreached, hoff', hall, hinfra⟩ := ih
    obtain ⟨hkept, hinfra', hnew⟩ := hstep.blocked hreached hoff' hoff'' hinfra
    refine ⟨hreached.step hstep, hoff'', fun p hp => ?_, hinfra'⟩
    rw [← List.append_assoc] at hp
    rcases List.mem_append.1 hp with hp | hp
    · exact hkept p (hall p hp)
    · exact hnew p hp

/-- Whatever a run did: a change of policy that fails changes nothing; an enabled NAT64 can be
disabled with any valid policy; and from then on until it is enabled again, packets to the local
prefix, to the prefixes that were observed, promised or configured then and to those configured
since are blocked. -/
theorem blocking_sticky (h : Reached s l) :
    (∀ policy e, (s.configure policy).1 = .error e → (s.configure policy).2 = s) ∧
    (∀ policy, s.policy.enabled = true → policy.enabled = false → policy.validate = .ok () →
      (s.configure policy).1 = .ok ()) ∧
    ∀ policy s' l' ps, s.policy.enabled = true → policy.enabled = false →
      Disabled s l policy s' l' ps → ∀ d, (s'.local_.contains d = true ∨
        ∃ p ∈ s.seen ++ s.promised.keys ++ s.policy.infrastructure.toList ++ ps,
          p.contains d = true) →
      Router.blocksTo s' d = true := by
  refine ⟨fun policy e herr => h.bounded.configure_error h.inv herr,
    fun policy hon hoff hvalid => h.bounded.disable h.inv hon hvalid hoff,
    fun policy s' l' ps hon hoff since d hd => ?_⟩
  obtain ⟨-, hoff', hall, -⟩ := since.blocked h hon hoff
  rcases hd with hd | ⟨p, hp, hd⟩
  · simp [Router.blocksTo, hoff', hd]
  · refine blocksTo_of_contains hoff' (hall p ?_) hd
    simp only [known, List.mem_append] at hp ⊢
    rcases hp with hp | hp
    · exact .inl (.inl hp)
    · exact .inr hp

/-- A site of its own. -/
def sampleSite : Prefix := ⟨.ofValue (0xfd00 <<< 112), 48⟩

/-- The theorem applied to a new selector that is told to disable NAT64 and to use a prefix of
others: packets to that prefix are blocked. -/
theorem blocking_sticky_site : ∃ s, Selector.new sampleSite = .ok s ∧
    Router.blocksTo (s.configure ⟨false, some ⟨.ofValue (0x2001 <<< 112), 96⟩, false⟩).2
      (.ofValue (0x2001 <<< 112 + 1)) = true := by
  refine ⟨_, rfl, ?_⟩
  have h := blocking_sticky (@Reached.new sampleSite _ rfl)
  have hok := h.2.1 ⟨false, some ⟨.ofValue (0x2001 <<< 112), 96⟩, false⟩ rfl rfl (by decide +kernel)
  exact h.2.2 _ _ _ _ rfl rfl (.now hok) _
    (.inr ⟨⟨.ofValue (0x2001 <<< 112), 96⟩, by decide +kernel, by decide +kernel⟩)

/-- A policy that names no usable prefix is refused, also when it would disable NAT64: a new
selector, which is enabled, answers it with an error. -/
theorem disabling_refused : ∃ s, Selector.new sampleSite = .ok s ∧ s.policy.enabled = true ∧
    (s.configure ⟨false, some ⟨.ofValue 0, 0⟩, false⟩).1 = .error invalidEvidence :=
  ⟨_, rfl, rfl, by rfl⟩

end Selector

end SnacMachine.Nat64
