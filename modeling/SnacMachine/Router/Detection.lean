import SnacMachine.Lib.Run
import SnacMachine.Router.Uniqueness

/-!
# Duplicate addresses in a run of the router

A run of the router is a sequence of calls by its driver at nondecreasing moments. `Inv` says of
every probe that is out, while its link is up, when it was sent and that nothing has been heard of
its address since (`Probed`); and that a link with an address that was given up is down. A link that
comes back while a probe is out would be taken for one that was up all the time, and a call to the
random source can fail or repeat an identifier: `Careful` is what a call must avoid.
-/

namespace SnacMachine.Router

open Ip Nat64 Act

/-- What a call met and what it left. -/
structure Outcome where
  before : Router
  result : Except IoError (List Tx)
  after : Router

/-- The router as its driver calls it. -/
def machine (legal : Router → Input → Prop) : Machine Router Input Outcome where
  step r i := ((run r i).2, ⟨r, (run r i).1, (run r i).2⟩)
  time i := i.now
  legal

/-- A call does not bring back a link with a probe out, and on a conflict it draws the identifier of
another address. -/
structure Careful (r : Router) (i : Input) : Prop where
  flap : ∀ l, i.call = .setLink l true → (r.links.get l).up = false → ¬ r.Exhausted l →
    ∀ a x, r.owned.get (l, a) = some x → ¬ x.Probing
  draws : ∀ k x, r.Heard i.call k → r.owned.get k = some x → x.state = .tentative → x.attempts < 3 →
    ∃ v, drawn i.draw = .ok v ∧ anotherAddress x v ≠ k.2

/-- The program goes on after a call. -/
def GoesOn (r : Router) (i : Input) : Prop := Fatal i.call → ∃ out, (run r i).1 = .ok out

/-- The calls of a careful driver. -/
def driven : Machine Router Input Outcome := machine fun r i => Careful r i ∧ GoesOn r i

/-- In the run so far a probe for an address was sent 1000 ms before a moment; since then its link
has been up, no solicitation or advertisement of the address was heard, and no probe for it was
reported as not sent. -/
def Probed (es : List (Input × Outcome)) (k : Link × Ipv6Addr) (t : Nat) : Prop :=
  ∃ es₁ e es₂ out, es = es₁ ++ e :: es₂ ∧ e.2.result = .ok out ∧ Emits out k ∧ e.1.now + 1000 ≤ t ∧
    (e.2.after.links.get k.1).up = true ∧ ∀ e' ∈ es₂, (e'.2.after.links.get k.1).up = true ∧
      ¬ e'.2.before.Heard e'.1.call k ∧ ¬ Reported e'.1.call k

/-- A link with an address that was given up is down. -/
def Shut (r : Router) : Prop := ∀ l, r.Exhausted l → (r.links.get l).up = false

/-- What holds after every run. -/
structure Inv (es : List (Input × Outcome)) (r : Router) : Prop where
  probed : ∀ k x, r.owned.get k = some x → x.Probing →
    ∃ t, x.deadline = some t ∧ ((r.links.get k.1).up = true → Probed es k t)
  shut : Shut r

section Steps

variable {r : Router} {i : Input} {k : Link × Ipv6Addr} {x y : OwnedAddress}
  {es : List (Input × Outcome)} {t : Nat}

/-- A link with an address that was given up stays down. It comes up only by being set up, which the
router refuses while such an address is there. -/
theorem Shut.next (h : Shut r) : Shut (run r i).2 := by
  rintro l ⟨a, y, hy, hfailed⟩
  have hkept (hex : r.Exhausted l) : ((run r i).2.links.get l).up = false := by
    refine Bool.eq_false_iff.2 fun hup => ?_
    rcases call_up hup with hup | ⟨-, hnot⟩
    · rw [h l hex] at hup
      exact nomatch hup
    · exact hnot hex
  cases call_came hy with
  | kept hx => exact hkept ⟨a, y, hx, hfailed⟩
  | waiting ht => exact nomatch hfailed.symm.trans ht
  | begun ht => exact nomatch hfailed.symm.trans ht
  | taken hx hp hd hup htick hready => exact nomatch hfailed.symm.trans hready
  | failed hx heard hdown => exact hdown

/-- A careful call that hears of an address that is being checked gives up that address for another
one, or for good. -/
theorem Careful.conflict (careful : Careful r i) (heard : r.Heard i.call k)
    (hx : r.owned.get k = some x) (ht : x.state = .tentative) :
    (x.attempts < 3 → (run r i).2.owned.get k = none ∧ ∃ a y out, a ≠ k.2 ∧
      (run r i).2.owned.get (k.1, a) = some y ∧ y.Probing ∧ y.attempts = x.attempts + 1 ∧
      (run r i).1 = .ok out ∧ Emits out (k.1, a)) ∧
    (3 ≤ x.attempts → (run r i).2.owned.get k = some { x with state := .failed, deadline := none } ∧
      ((run r i).2.links.get k.1).up = false) := by
  have h := call_conflict i heard hx ht
  have hdraws := careful.draws k x heard hx ht
  generalize (run r i).1 = res at h ⊢
  generalize (run r i).2 = r' at h ⊢
  cases h with
  | exhausted h3 howned hdown hrest =>
    refine ⟨fun hlt => absurd h3 (by omega), fun _ => ⟨?_, hdown⟩⟩
    rw [howned, OrdMap.get_insert_self]
  | undrawn h3 hdraw howned hrest =>
    obtain ⟨v, hv, -⟩ := hdraws h3
    exact nomatch hdraw.symm.trans hv
  | @retried v packet p _ h3 hdraw hpacket howned hrest =>
    obtain ⟨v', hv, hne⟩ := hdraws h3
    cases hdraw.symm.trans hv
    refine ⟨fun _ => ⟨?_, anotherAddress x v,
      ⟨true, p, .tentative, some (i.now + 1000), x.attempts + 1⟩, _, hne, ?_,
      ⟨rfl, rfl, Nat.succ_ne_zero _⟩, rfl, rfl, packet, hpacket, List.mem_singleton.2 rfl⟩,
      fun hle => absurd h3 (by omega)⟩
    · rw [howned, if_neg, OrdMap.get_remove_self]
      intro hk
      exact hne (congrArg Prod.snd hk).symm
    · rw [howned, if_pos rfl]

/-- A probe that stays out over a careful call was not answered and not reported. -/
theorem Probed.next (h : Probed es k t) (hup : ((run r i).2.links.get k.1).up = true)
    (heard : ¬ r.Heard i.call k) (hreported : ¬ Reported i.call k) :
    Probed (es ++ [(i, ⟨r, (run r i).1, (run r i).2⟩)]) k t := by
  obtain ⟨es₁, e, es₂, out, rfl, hout, hemits, ht, hup₀, hrest⟩ := h
  refine ⟨es₁, e, es₂ ++ [(i, ⟨r, (run r i).1, (run r i).2⟩)], out, ?_, hout, hemits, ht, hup₀,
    fun e' he' => ?_⟩
  · rw [List.append_assoc, List.cons_append]
  · rcases List.mem_append.1 he' with he' | he'
    · exact hrest e' he'
    · rw [List.mem_singleton.1 he']
      exact ⟨hup, heard, hreported⟩

/-- A call that goes on has sent its probe. -/
theorem Sent.ok (h : Sent r i k) (goes : GoesOn r i) :
    ∃ out, (run r i).1 = .ok out ∧ Emits out k := by
  unfold Sent at h
  cases hres : (run r i).1 with
  | ok out =>
    rw [hres] at h
    exact ⟨out, rfl, h⟩
  | error err =>
    rw [hres] at h
    obtain ⟨out, hout⟩ := goes h
    exact nomatch hres.symm.trans hout

/-- The probe that a call has sent. -/
theorem Probed.begin_ {out : List Tx} (hout : (run r i).1 = .ok out) (hemits : Emits out k)
    (hup : ((run r i).2.links.get k.1).up = true) :
    Probed (es ++ [(i, ⟨r, (run r i).1, (run r i).2⟩)]) k (i.now + 1000) := by
  refine ⟨es, (i, ⟨r, (run r i).1, (run r i).2⟩), [], out, rfl, hout, hemits,
    Nat.le_refl _, hup, ?_⟩
  intro e' he'
  exact absurd he' List.not_mem_nil

/-- A careful call keeps the invariant, unless it ends the program. An entry that a call leaves
comes from an entry before it (`call_came`), and the conditions of a careful call are used where a
link comes up or an answer is heard. -/
theorem Inv.next (h : Inv es r) (careful : Careful r i) (goes : GoesOn r i) :
    Inv (es ++ [(i, ⟨r, (run r i).1, (run r i).2⟩)]) (run r i).2 := by
  refine ⟨fun k y hy hp => ?_, h.shut.next⟩
  cases call_came hy with
  | kept hx =>
    obtain ⟨t, ht, hprobed⟩ := h.probed k y hx hp
    refine ⟨t, ht, fun hup => ?_⟩
    have hup₀ : (r.links.get k.1).up = true := by
      by_contra hdown
      rcases call_up hup with hup | ⟨hcall, hex⟩
      · exact hdown hup
      · exact careful.flap k.1 hcall (Bool.eq_false_iff.2 hdown) hex k.2 y hx hp
    refine (hprobed hup₀).next hup (fun heard => ?_) fun hreported => call_reported hreported hy hp
    obtain ⟨hretried, hgiven⟩ := careful.conflict heard hx hp.state
    rcases Nat.lt_or_ge y.attempts 3 with h3 | h3
    · exact nomatch hy.symm.trans (hretried h3).1
    · rw [Option.some.inj (hy.symm.trans (hgiven h3).1)] at hp
      exact nomatch hp.state
  | waiting ht hnot => exact absurd hp hnot
  | begun ht hd hsent =>
    obtain ⟨out, hout, hemits⟩ := hsent.ok goes
    exact ⟨_, hd, fun hup => .begin_ hout hemits hup⟩
  | taken hx hp' hd hup htick hready => exact nomatch hp.state.symm.trans hready
  | failed hx heard hdown hfailed => exact nomatch hp.state.symm.trans hfailed

end Steps

section Runs

variable {r₀ r : Router} {t₀ t : Nat} {es : List (Input × Outcome)} {i : Input}

/-- In every run the invariant holds, if no check is under way at its start. -/
theorem inv_of_run (hstart : ∀ k x, r₀.owned.get k = some x → ¬ x.Probing ∧ x.state ≠ .failed)
    (path : driven.Run r₀ t₀ es r t) : Inv es r := by
  refine path.history (I := fun es r _ => Inv es r) ⟨fun k x hx hp => ?_, ?_⟩ ?_
  · exact absurd hp (hstart k x hx).1
  · rintro l ⟨a, x, hx, hfailed⟩
    exact absurd hfailed (hstart (l, a) x hx).2
  · intro es r t i _ h _ legal
    exact h.next legal.1 legal.2

/-- An address that was given up keeps its link down as long as the driver does not start again. -/
theorem shut_of_run {k : Link × Ipv6Addr} {x : OwnedAddress} (hshut : Shut r₀)
    (hx : r₀.owned.get k = some x) (hfailed : x.state = .failed)
    (path : (machine fun _ i => i.call ≠ .start).Run r₀ t₀ es r t) :
    (r.links.get k.1).up = false := by
  have h : Shut r ∧ r.owned.get k = some x := by
    refine path.invariant (I := fun r _ => Shut r ∧ r.owned.get k = some x) ⟨hshut, hx⟩ ?_
    intro r t i h _ legal
    exact ⟨h.1.next, call_failed h.1 legal h.2 hfailed⟩
  exact h.1 k.1 ⟨k.2, x, h.2, hfailed⟩

/-- In every run of a careful driver, an address is taken only by a tick 1000 ms after a probe for
it that was sent, on a link that has been up since, with nothing heard of the address since; and a
message about an address that is being checked makes the router try another one or, the third time,
take the link down for good. -/
theorem detection_safe (hstart : ∀ k x, r₀.owned.get k = some x → ¬ x.Probing ∧ x.state ≠ .failed)
    (path : driven.Run r₀ t₀ es r t) (careful : Careful r i) :
    (∀ k x y, r.owned.get k = some x → x.state = .tentative → (run r i).2.owned.get k = some y →
      y.state = .ready → i.call = .tick ∧ (r.links.get k.1).up = true ∧ Probed es k i.now) ∧
    ∀ k x, r.Heard i.call k → r.owned.get k = some x → x.state = .tentative →
      (x.attempts < 3 → (run r i).2.owned.get k = none ∧ ∃ a y out, a ≠ k.2 ∧
        (run r i).2.owned.get (k.1, a) = some y ∧ y.Probing ∧ y.attempts = x.attempts + 1 ∧
        (run r i).1 = .ok out ∧ Emits out (k.1, a)) ∧
      (3 ≤ x.attempts →
        (run r i).2.owned.get k = some { x with state := .failed, deadline := none } ∧
        ((run r i).2.links.get k.1).up = false ∧
        ∀ es' r' t', (machine fun _ i => i.call ≠ .start).Run (run r i).2 i.now es' r' t' →
          (r'.links.get k.1).up = false) := by
  have inv := inv_of_run hstart path
  refine ⟨fun k x y hx ht hy hready => ?_, fun k x heard hx ht => ?_⟩
  · cases call_came hy with
    | kept hx' =>
      cases hx.symm.trans hx'
      exact nomatch ht.symm.trans hready
    | waiting ht' => exact nomatch ht'.symm.trans hready
    | begun ht' => exact nomatch ht'.symm.trans hready
    | taken hx' hp hd hup htick =>
      obtain ⟨d, hdeadline, hprobed⟩ := inv.probed k _ hx' hp
      obtain ⟨es₁, e, es₂, out, hes, hout, hemits, hd', hrest⟩ := hprobed hup
      rw [hdeadline] at hd
      have hdue : d ≤ i.now := by simpa using hd
      exact ⟨htick, hup, es₁, e, es₂, out, hes, hout, hemits, by omega, hrest⟩
    | failed hx' heard hdown hfailed => exact nomatch hfailed.symm.trans hready
  · obtain ⟨hretried, hgiven⟩ := careful.conflict heard hx ht
    refine ⟨hretried, fun h3 => ⟨(hgiven h3).1, (hgiven h3).2, fun es' r' t' path' => ?_⟩⟩
    exact shut_of_run inv.shut.next (hgiven h3).1 rfl path'

end Runs

/-! ## A router that starts -/

/-- The random source that always draws zero. -/
def zeros : Random := fun _ _ => .ok 0

/-- A router as the program makes it. -/
def booted : Router :=
  match new (Group.sampleRouter 1).identity 0 zeros with
  | .ok r => r
  | .error _ => Group.sampleRouter 1

/-- The address of its infrastructure link. -/
def bootAddress : Link × Ipv6Addr := (.ail, booted.identity.linkLocal .ail)

/-- Every address of the sample is ready. -/
theorem booted_ready : ∀ e ∈ booted.owned.entries, e.2.state = .ready := by decide +kernel

/-- In the sample no check is under way. -/
theorem booted_start (k : Link × Ipv6Addr) (x : OwnedAddress) (hx : booted.owned.get k = some x) :
    ¬ x.Probing ∧ x.state ≠ .failed := by
  have hready := booted_ready (k, x) (OrdMap.mem_iff_get.2 hx)
  refine ⟨fun hp => ?_, fun hfailed => ?_⟩
  · exact nomatch hready.symm.trans hp.state
  · exact nomatch hready.symm.trans hfailed

/-- Whether an address is in a state. -/
def inState (r : Router) (k : Link × Ipv6Addr) (s : DadState) : Bool :=
  (r.owned.get k).any fun x => x.state == s

/-- The state of an address that is owned. -/
theorem inState_iff {r : Router} {k : Link × Ipv6Addr} {s : DadState} :
    r.inState k s = true ↔ ∃ x, r.owned.get k = some x ∧ x.state = s := by
  simp [inState, Option.any_eq_true]

def startInput : Input := ⟨.start, 0, zeros⟩

def started : Router := (run booted startInput).2

def tickInput : Input := ⟨.tick, 1000, zeros⟩

/-- The first tick after a second takes the address. Both states of the run are evaluated; neither
the start nor the tick changes a link or brings a message, so both calls are careful. -/
theorem detection_safe_start : (run started tickInput).2.inState bootAddress .ready = true ∧
    Probed [(startInput, ⟨booted, (run booted startInput).1, started⟩)] bootAddress 1000 := by
  have hbefore : started.inState bootAddress .tentative = true := by decide +kernel
  have hafter : (run started tickInput).2.inState bootAddress .ready = true := by decide +kernel
  obtain ⟨x, hx, ht⟩ := inState_iff.1 hbefore
  obtain ⟨y, hy, hready⟩ := inState_iff.1 hafter
  have hcareful (r : Router) (i : Input) (h : i.call = .start ∨ i.call = .tick) : Careful r i := by
    refine ⟨fun l hl => ?_, fun k x heard => ?_⟩
    · rcases h with h | h
      · exact nomatch h.symm.trans hl
      · exact nomatch h.symm.trans hl
    · rcases h with h | h
      · rw [h] at heard
        exact heard.elim
      · rw [h] at heard
        exact heard.elim
  have hgoes : GoesOn booted startInput := by
    have hsent : Group.packets (run booted startInput).1 ≠ [] := by decide +kernel
    intro _
    cases hres : (run booted startInput).1 with
    | ok out => exact ⟨out, rfl⟩
    | error err =>
      rw [hres] at hsent
      exact absurd rfl hsent
  have path : driven.Run booted 0 [(startInput, ⟨booted, (run booted startInput).1, started⟩)]
      started 0 := .snoc (m := driven) startInput .nil (Nat.le_refl 0)
      ⟨hcareful _ _ (.inl rfl), hgoes⟩
  exact ⟨hafter, ((detection_safe booted_start path (hcareful _ tickInput (.inr rfl))).1
    bootAddress x y
    hx ht hy hready).2.2⟩

/-! ### A link that comes back -/

def downInput : Input := ⟨.setLink .ail false, 100, zeros⟩

def downRouter : Router := (run started downInput).2

def upInput : Input := ⟨.setLink .ail true, 200, zeros⟩

def upRouter : Router := (run downRouter upInput).2

/-- The calls before the tick. -/
def flapEvents : List (Input × Outcome) :=
  [(startInput, ⟨booted, (run booted startInput).1, started⟩),
    (downInput, ⟨started, (run started downInput).1, downRouter⟩),
    (upInput, ⟨downRouter, (run downRouter upInput).1, upRouter⟩)]

/-- Without packets there is no probe. -/
theorem not_emits_nil (k : Link × Ipv6Addr) : ¬ Emits [] k := by
  rintro ⟨packet, -, hmem⟩
  exact nomatch hmem

/-- The link goes down and comes back while the probe is out, and the address is taken all the
same. -/
theorem flap_takes_address :
    (machine fun _ _ => True).Run booted 0 flapEvents upRouter 200 ∧
      upRouter.inState bootAddress .tentative = true ∧
      (run upRouter tickInput).2.inState bootAddress .ready = true ∧
      (downRouter.links.get .ail).up = false ∧ ¬ Probed flapEvents bootAddress 1000 := by
  have hdown : (downRouter.links.get .ail).up = false := by decide +kernel
  refine ⟨?_, by decide +kernel, by decide +kernel, hdown, ?_⟩
  · exact .snoc (m := machine fun _ _ => True) upInput
      (.snoc (m := machine fun _ _ => True) downInput
      (.snoc (m := machine fun _ _ => True) startInput .nil (by decide) trivial)
      (by decide) trivial)
      (by decide) trivial
  rintro ⟨es₁, e, es₂, out, hes, hout, hemits, -, hup, hrest⟩
  have hquiet (r : Router) (i : Input) (hnil : Group.packets (run r i).1 = [])
      (hout : (run r i).1 = .ok out) : False := by
    rw [hout] at hnil
    have hnil : out = [] := hnil
    rw [hnil] at hemits
    exact not_emits_nil _ hemits
  match es₁, hes with
  | [], hes =>
    obtain ⟨-, rfl⟩ := List.cons.inj hes
    have := (hrest _ List.mem_cons_self).1
    exact nomatch hdown.symm.trans this
  | [_], hes =>
    obtain ⟨-, hes⟩ := List.cons.inj hes
    obtain ⟨rfl, -⟩ := List.cons.inj hes
    exact hquiet started downInput (by decide +kernel) hout
  | [_, _], hes =>
    obtain ⟨-, hes⟩ := List.cons.inj hes
    obtain ⟨-, hes⟩ := List.cons.inj hes
    obtain ⟨rfl, -⟩ := List.cons.inj hes
    exact hquiet downRouter upInput (by decide +kernel) hout
  | _ :: _ :: _ :: _, hes =>
    have := congrArg List.length hes
    simp [flapEvents] at this

end SnacMachine.Router
