import Mathlib.Data.List.Induction
import SnacMachine.Router.Frames

/-!
# Delegated prefixes are kept or given back

What an answered request does to the leases (`PdClient.install`): the leases as the answer leaves
them (`updated`), those of them that stay, and the Release that is queued for the others. A
delegated prefix is `Accounted` for when it is leased or a Release of it is queued.
-/

namespace SnacMachine.Router.PdClient

open Ip Nat64 Dhcp Act

/-! ## What is accounted for -/

/-- The key of the lease of a delegation. -/
def keyOf (d : Delegation) : LeaseKey := (d.iaid, d.prefix_)

/-- A Release of a prefix to a server is queued. -/
def Queued (p : PdClient) (server : Bytes) (k : LeaseKey) : Prop :=
  ∃ r ∈ p.releases, r.exchange.server = server ∧ ∃ d ∈ r.prefixes, keyOf d = k

instance (p : PdClient) (server : Bytes) (k : LeaseKey) : Decidable (p.Queued server k) :=
  inferInstanceAs (Decidable (∃ r ∈ p.releases, _))

/-- A prefix is leased, or given back to the server that delegated it. -/
def Accounted (p : PdClient) (server : Bytes) (k : LeaseKey) : Prop :=
  p.leases.contains k = true ∨ p.Queued server k

instance (p : PdClient) (server : Bytes) (k : LeaseKey) : Decidable (p.Accounted server k) :=
  inferInstanceAs (Decidable (_ ∨ _))

/-- The server that a lease is from, once the answer is taken in. -/
def delegator (m : Message) (k : LeaseKey) (l : Lease) : Bytes :=
  if ∃ d ∈ m.delegations, keyOf d = k then m.server else l.server

/-- Nothing is forgotten between the clients before and after an answer: neither what the answer
delegates, nor a lease that is live and that it does not take back; and a failure drops no lease in
use. -/
structure Remembers (m : Message) (now : Nat) (p : PdClient) (result : Except IoError Unit)
    (p' : PdClient) : Prop where
  delegated : ∀ d ∈ m.delegations, d.valid ≠ 0 → p'.Accounted m.server (keyOf d)
  leased : ∀ k l, p.leases.get k = some l → l.valid.live now = true →
    (∀ d ∈ m.delegations, keyOf d = k → d.valid ≠ 0) → p'.Accounted (delegator m k l) k
  inUse : ∀ e, result = .error e → ∀ k l, p.leases.get k = some l → l.used = true →
    p'.leases.contains k = true

/-! ## A Release -/

/-- A Release can be queued. -/
def Room (w : World) : Prop :=
  w.router.pd.releases.length < 16 ∧ ∃ x, w.draw.sample w.used (256 ^ 3 - 1) = .ok x

/-- What becomes of a Release: the result, and the Releases that are queued after it. -/
structure Returned (w : World) (server : Bytes) (keys : LeaseKey → Prop)
    (result : Except IoError Unit) (p' : PdClient) : Prop where
  queued : ∀ s k, p'.Queued s k ↔ w.router.pd.Queued s k ∨ (Room w ∧ s = server ∧ keys k)
  failed : (∃ e, result = .error e) ↔ (∃ k, keys k) ∧ ¬ Room w

/-- A queued release is found at the end of the queue, and those before it are as they were. -/
theorem queued_append {p : PdClient} {release : Release} {s : Bytes} {k : LeaseKey} :
    { p with releases := p.releases ++ [release] }.Queued s k ↔
      p.Queued s k ∨ (release.exchange.server = s ∧ ∃ d ∈ release.prefixes, keyOf d = k) := by
  constructor
  · rintro ⟨r, hr, hk⟩
    rcases List.mem_append.1 hr with hr | hr
    · exact .inl ⟨r, hr, hk⟩
    · rw [List.mem_singleton.1 hr] at hk
      exact .inr hk
  · rintro (⟨r, hr, hk⟩ | hk)
    · exact ⟨r, List.mem_append_left _ hr, hk⟩
    · exact ⟨release, List.mem_append_right _ List.mem_cons_self, hk⟩

/-- Queueing a release returns all its prefixes, or fails and returns none; the leases stay. It
fails without room in the queue, or when no number can be drawn, which together is `Room`. -/
theorem queueRelease_spec (server : Bytes) (prefixes : List Delegation) (now : Nat) (w : World) :
    ∃ result w', queueRelease server prefixes now w = (result, w') ∧
      w'.router.pd.leases = w.router.pd.leases ∧
      Returned w server (fun k => ∃ d ∈ prefixes, keyOf d = k) result w'.router.pd := by
  cases prefixes with
  | nil =>
    refine ⟨.ok (), w, rfl, rfl, fun s k => ?_, ?_⟩
    · simp
    · simp
  | cons d ds =>
    have hne : d :: ds ≠ [] := List.cons_ne_nil d ds
    have hkeys : ∃ k, ∃ x ∈ d :: ds, keyOf x = k := ⟨keyOf d, d, List.mem_cons_self, rfl⟩
    have hfull {e : IoError} (hroom : ¬ Room w) : Returned w server
        (fun k => ∃ x ∈ d :: ds, keyOf x = k) (.error e) w.router.pd :=
      ⟨fun s k => by simp [hroom], ⟨fun _ => ⟨hkeys, hroom⟩, fun _ => ⟨e, rfl⟩⟩⟩
    simp only [queueRelease, if_neg hne, look_bind_run]
    split
    · next hlen => exact ⟨_, w, rfl, rfl, hfull fun h => absurd h.1 (Nat.not_lt.2 hlen)⟩
    · next hlen =>
      cases hx : w.draw.sample w.used (256 ^ 3 - 1) with
      | error e =>
        refine ⟨.error e, { w with used := w.used + 1 }, ?_, rfl, hfull fun h => ?_⟩
        · simp only [fill, bind_run, sample, hx]
        · obtain ⟨x, hx'⟩ := h.2
          rw [hx] at hx'
          cases hx'
      | ok x =>
        have hroom : Room w := ⟨Nat.not_le.1 hlen, x, hx⟩
        refine ⟨.ok (), (updatePd (fun p => { p with releases := p.releases ++
          [⟨⟨8, toBe 3 x, now, now, 1000, 0, server⟩, d :: ds⟩] }) { w with used := w.used + 1 }).2,
          ?_, rfl, fun s k => ?_, ?_⟩
        · simp only [fill, bind_run, sample, hx]
          rfl
        · refine queued_append.trans ?_
          simp only [hroom, true_and, eq_comm]
        · simp [hroom]

/-! ## The leases as an answer leaves them -/

/-- The leases that have not expired. -/
def liveLeases (p : PdClient) (now : Nat) : OrdMap LeaseKey Lease :=
  p.leases.retain fun _ l => l.valid.live now

/-- The leases with the delegations of an answer. -/
def merged (p : PdClient) (m : Message) (now : Nat) : OrdMap LeaseKey Lease :=
  (m.delegations.foldl (installOne m.server (shortest m.delegations) now)
    (p.liveLeases now, .empty)).1

/-- The leases as the answer leaves them, where those that are selected are in use. -/
def updated (p : PdClient) (m : Message) (now : Nat) : OrdMap LeaseKey Lease :=
  ({ p with leases := p.merged m now, fallbackAt := none }.selected now).foldl
    (fun leases k => leases.modify k fun l => { l with used := true }) (p.merged m now)

/-- The answer leaves too many leases. -/
def crowded (p : PdClient) (m : Message) (now : Nat) : Prop :=
  16 < (acquired (p.liveLeases now) m.delegations).size

instance (p : PdClient) (m : Message) (now : Nat) : Decidable (p.crowded m now) :=
  inferInstanceAs (Decidable (_ < _))

/-- A lease after a delegation. It is untouched if the delegation is of another key, removed if its
lifetime is zero, and entered or renewed otherwise. -/
theorem get_installOne (server : Bytes) (short : OrdMap Nat Nat) (now : Nat)
    (s : OrdMap LeaseKey Lease × OrdMap Nat (Lifetime × Lifetime)) (d : Delegation) (k : LeaseKey) :
    (keyOf d ≠ k ∧ (installOne server short now s d).1.get k = s.1.get k) ∨
    (keyOf d = k ∧ d.valid = 0 ∧ (installOne server short now s d).1.get k = none) ∨
    (keyOf d = k ∧ d.valid ≠ 0 ∧ ∃ l, (installOne server short now s d).1.get k = some l ∧
      l.server = server) := by
  rcases Decidable.em (keyOf d = k) with rfl | hk
  · rcases Decidable.em (d.valid = 0) with hv | hv
    · refine .inr (.inl ⟨rfl, hv, ?_⟩)
      simp only [installOne, if_pos hv]
      exact OrdMap.get_remove_self _ _
    · refine .inr (.inr ⟨rfl, hv, ?_⟩)
      simp only [installOne, if_neg hv]
      exact ⟨_, OrdMap.get_insert_self _ _ _, rfl⟩
  · refine .inl ⟨hk, ?_⟩
    simp only [installOne]
    split
    · rw [OrdMap.get_remove_eq]
      exact if_neg (Ne.symm hk)
    · rw [OrdMap.get_insert_eq]
      exact if_neg hk

/-- The last word of an answer on a prefix. -/
def lastOf (ds : List Delegation) (k : LeaseKey) : Option Delegation :=
  ds.reverse.find? fun d => keyOf d = k

/-- The last delegation of a lease, with one more delegation. -/
theorem lastOf_concat (ds : List Delegation) (d : Delegation) (k : LeaseKey) :
    lastOf (ds ++ [d]) k = if keyOf d = k then some d else lastOf ds k := by
  simp only [lastOf, List.reverse_append, List.reverse_singleton, List.singleton_append,
    List.find?_cons]
  split
  · next h => rw [if_pos (of_decide_eq_true h)]
  · next h => rw [if_neg (of_decide_eq_false h)]

/-- There is no last delegation of a lease if there is none. -/
theorem lastOf_eq_none {ds : List Delegation} {k : LeaseKey} :
    lastOf ds k = none ↔ ∀ d ∈ ds, keyOf d ≠ k := by
  simp [lastOf]

/-- The last delegation of a lease is one of the delegations. -/
theorem lastOf_eq_some {ds : List Delegation} {k : LeaseKey} {d : Delegation}
    (h : lastOf ds k = some d) : d ∈ ds ∧ keyOf d = k := by
  refine ⟨List.mem_reverse.1 (List.mem_of_find?_eq_some h), ?_⟩
  have := List.find?_some h
  exact of_decide_eq_true this

section Merging

variable {server : Bytes} {short : OrdMap Nat Nat} {now : Nat} {k : LeaseKey}

/-- A lease after the delegations of an answer: the last word counts. By induction on the
delegations, with `get_installOne` for the first of them. -/
theorem get_foldl (ds : List Delegation)
    (s : OrdMap LeaseKey Lease × OrdMap Nat (Lifetime × Lifetime)) :
    (lastOf ds k = none ∧ (ds.foldl (installOne server short now) s).1.get k = s.1.get k) ∨
    (∃ d, lastOf ds k = some d ∧ d.valid = 0 ∧
      (ds.foldl (installOne server short now) s).1.get k = none) ∨
    (∃ d, lastOf ds k = some d ∧ d.valid ≠ 0 ∧
      ∃ l, (ds.foldl (installOne server short now) s).1.get k = some l ∧ l.server = server) := by
  induction ds using List.reverseRecOn with
  | nil => exact .inl ⟨rfl, rfl⟩
  | append_singleton ds d ih =>
    rw [lastOf_concat, List.foldl_append, List.foldl_cons, List.foldl_nil]
    rcases get_installOne server short now (ds.foldl (installOne server short now) s) d k with
      ⟨hk, hget⟩ | ⟨hk, hv, hget⟩ | ⟨hk, hv, l, hget, hserver⟩
    · rw [if_neg hk, hget]
      exact ih
    · rw [if_pos hk]
      exact .inr (.inl ⟨d, rfl, hv, hget⟩)
    · rw [if_pos hk]
      exact .inr (.inr ⟨d, rfl, hv, l, hget, hserver⟩)

end Merging

/-- A lease after some have been marked as in use. By induction on the keys; marking changes neither
the keys nor the servers. -/
theorem get_marked (keys : List LeaseKey) (leases : OrdMap LeaseKey Lease) (k : LeaseKey) :
    ∃ f : Lease → Lease, (keys.foldl (fun leases k => leases.modify k fun l =>
      { l with used := true }) leases).get k = (leases.get k).map f ∧
        ∀ l, (f l).server = l.server := by
  induction keys generalizing leases with
  | nil => exact ⟨id, (Option.map_id_fun ▸ rfl), fun l => rfl⟩
  | cons x keys ih =>
    obtain ⟨f, hf, hkeep⟩ := ih (leases.modify x fun l => { l with used := true })
    rw [List.foldl_cons, hf, OrdMap.get_modify]
    split
    · refine ⟨fun l => f { l with used := true }, Option.map_map _ _ _, fun l => hkeep _⟩
    · exact ⟨f, rfl, hkeep⟩

/-- A lease as the answer leaves it. One that the answer does not mention may have its times
shortened, but stays with its server. -/
theorem updated_cases (p : PdClient) (m : Message) (now : Nat) (k : LeaseKey) :
    (lastOf m.delegations k = none ∧ (p.liveLeases now).get k = none ∧
      (p.updated m now).get k = none) ∨
    (lastOf m.delegations k = none ∧ ∃ l l', (p.liveLeases now).get k = some l ∧
      (p.updated m now).get k = some l' ∧ l'.server = l.server) ∨
    (∃ d, lastOf m.delegations k = some d ∧ d.valid = 0 ∧ (p.updated m now).get k = none) ∨
    (∃ d, lastOf m.delegations k = some d ∧ d.valid ≠ 0 ∧
      ∃ l, (p.updated m now).get k = some l ∧ l.server = m.server) := by
  obtain ⟨f, hf, hkeep⟩ := get_marked
    ({ p with leases := p.merged m now, fallbackAt := none }.selected now) (p.merged m now) k
  have hf : (p.updated m now).get k = ((p.merged m now).get k).map f := hf
  rcases get_foldl (k := k) m.delegations (p.liveLeases now, .empty) with
    ⟨hlast, hget⟩ | ⟨d, hlast, hv, hget⟩ | ⟨d, hlast, hv, l, hget, hserver⟩
  · cases hl : (p.liveLeases now).get k with
    | none => exact .inl ⟨hlast, rfl, by rw [hf, merged, hget, hl]; rfl⟩
    | some l =>
      exact .inr (.inl ⟨hlast, l, f l, rfl, by rw [hf, merged, hget, hl]; rfl, hkeep l⟩)
  · exact .inr (.inr (.inl ⟨d, hlast, hv, by rw [hf, merged, hget]; rfl⟩))
  · refine .inr (.inr (.inr ⟨d, hlast, hv, f l, ?_, (hkeep l).trans hserver⟩))
    rw [hf, merged, hget]
    rfl

/-- The client of a router is replaced. -/
def setPd (w : World) (p : PdClient) : World := { w with router := { w.router with pd := p } }

section Install

variable {w : World} {m : Message} {now : Nat}

/-- The part of `install` that comes after the answer is found to carry no error. The two statuses
that begin an exchange anew are excluded by the hypothesis, and the limits decide between the two
ways to go on. -/
theorem install_run (hstatus : m.status = 0) : install m now w =
    if w.router.pd.crowded m now then
      (do
        queueRelease m.server (m.delegations.filter fun d =>
          d.valid != 0 && !(w.router.pd.liveLeases now).contains (d.iaid, d.prefix_)) now
        updatePd fun p => { p with state := .bound, exchange := none }
        other "acquired DHCP prefix capacity" : Io Unit)
        (setPd w { w.router.pd with leases := w.router.pd.liveLeases now })
    else
      (do
        queueRelease m.server (((w.router.pd.updated m now).entries.filter fun e =>
          !e.2.used).map (asDelegation now)) now
        updatePd fun p => { p with
          fallbackAt := none
          state := .bound
          exchange := none
          requested := [] } : Io Unit)
        (setPd w { w.router.pd with
          leases := (w.router.pd.updated m now).retain fun _ l => l.used
          fallbackAt := none }) := by
  have h3 :
      ¬ (m.status = 3 ∧ (w.router.pd.state = .renewing ∨ w.router.pd.state = .rebinding)) := by
    rw [hstatus]
    exact nofun
  have h6 : ¬ (m.status = 6 ∧ w.router.pd.state = .requesting) := by
    rw [hstatus]
    exact nofun
  unfold install
  rw [look_bind_run, if_neg h3, if_neg h6, if_neg (not_not.2 hstatus)]
  by_cases hc : w.router.pd.crowded m now
  · rw [if_pos hc]
    exact congrFun (if_pos hc) _
  · rw [if_neg hc]
    exact congrFun (if_neg hc) _

/-- A reply that brings too many leases changes none of them, and returns what is new in it. The
live leases are put back, and the new delegations are queued for release. -/
theorem install_crowded (hstatus : m.status = 0) (hc : w.router.pd.crowded m now) :
    ∃ result w', install m now w = (result, w') ∧ (∃ e, result = .error e) ∧
      w'.router.pd.leases = w.router.pd.liveLeases now ∧
      ∀ s k, w'.router.pd.Queued s k ↔ w.router.pd.Queued s k ∨ (Room w ∧ s = m.server ∧
        ∃ d ∈ m.delegations, d.valid ≠ 0 ∧
          (w.router.pd.liveLeases now).contains (keyOf d) = false ∧ keyOf d = k) := by
  have hkeys (k : LeaseKey) : (∃ d ∈ m.delegations.filter fun d => d.valid != 0 &&
      !(w.router.pd.liveLeases now).contains (d.iaid, d.prefix_), keyOf d = k) ↔
      ∃ d ∈ m.delegations, d.valid ≠ 0 ∧
        (w.router.pd.liveLeases now).contains (keyOf d) = false ∧ keyOf d = k := by
    simp [keyOf, and_assoc]
  obtain ⟨result, w', hqueue, hleases, hret⟩ := queueRelease_spec m.server
    (m.delegations.filter fun d => d.valid != 0 &&
      !(w.router.pd.liveLeases now).contains (d.iaid, d.prefix_)) now
    (setPd w { w.router.pd with leases := w.router.pd.liveLeases now })
  rw [install_run hstatus, if_pos hc, bind_run, hqueue]
  have hqueued (s : Bytes) (k : LeaseKey) := (hret.queued s k).trans
    (or_congr_right (and_congr_right fun _ => and_congr_right fun _ => hkeys k))
  cases result with
  | ok u => exact ⟨_, _, rfl, ⟨_, rfl⟩, hleases, hqueued⟩
  | error e => exact ⟨_, _, rfl, ⟨_, rfl⟩, hleases, hqueued⟩

/-- A reply that brings few enough leases keeps those in use, and returns the others. The returned
delegations are those of the merged table that are not used, so the release that is queued for them
names exactly the leases that go. -/
theorem install_roomy (hstatus : m.status = 0) (hc : ¬ w.router.pd.crowded m now) :
    ∃ result w', install m now w = (result, w') ∧
      w'.router.pd.leases = (w.router.pd.updated m now).retain (fun _ l => l.used) ∧
      Returned w m.server (fun k => ∃ l, (w.router.pd.updated m now).get k = some l ∧
        l.used = false)
        result w'.router.pd := by
  have hkeys (k : LeaseKey) : (∃ d ∈ ((w.router.pd.updated m now).entries.filter fun e =>
      !e.2.used).map (asDelegation now), keyOf d = k) ↔
      ∃ l, (w.router.pd.updated m now).get k = some l ∧ l.used = false := by
    simp only [List.mem_map, List.mem_filter, Bool.not_eq_true']
    constructor
    · rintro ⟨d, ⟨e, ⟨he, hused⟩, rfl⟩, rfl⟩
      exact ⟨e.2, OrdMap.mem_iff_get.1 he, hused⟩
    · rintro ⟨l, hl, hused⟩
      exact ⟨_, ⟨(k, l), ⟨OrdMap.mem_iff_get.2 hl, hused⟩, rfl⟩, rfl⟩
  obtain ⟨result, w', hqueue, hleases, hret⟩ := queueRelease_spec m.server
    (((w.router.pd.updated m now).entries.filter fun e => !e.2.used).map (asDelegation now)) now
    (setPd w { w.router.pd with
      leases := (w.router.pd.updated m now).retain fun _ l => l.used
      fallbackAt := none })
  rw [install_run hstatus, if_neg hc, bind_run, hqueue]
  have hqueued (s : Bytes) (k : LeaseKey) := (hret.queued s k).trans
    (or_congr_right (and_congr_right fun _ => and_congr_right fun _ => hkeys k))
  have hfailed := hret.failed.trans (and_congr_left' (exists_congr hkeys))
  cases result with
  | ok u => exact ⟨.ok (), _, rfl, hleases, hqueued, hfailed⟩
  | error e => exact ⟨.error e, _, rfl, hleases, hqueued, hfailed⟩

/-- What a crowded answer delegates anew can be given back, and no lease in use has expired. -/
structure CrowdedOk (w : World) (m : Message) (now : Nat) : Prop where
  returns : Room w ∨ ∀ d ∈ m.delegations, d.valid ≠ 0 →
    (w.router.pd.liveLeases now).contains (keyOf d) = true ∨ w.router.pd.Queued m.server (keyOf d)
  inUse : ∀ k l, w.router.pd.leases.get k = some l → l.used = true → l.valid.live now = true

/-- Nothing that the answer delegates is taken back by a later part of it, what it leaves unused can
be given back to the server that delegated it, and leases in use are kept unless the Release is
queued. -/
structure RoomyOk (w : World) (m : Message) (now : Nat) : Prop where
  stands : ∀ d ∈ m.delegations, d.valid ≠ 0 →
    (∃ d', lastOf m.delegations (keyOf d) = some d' ∧ d'.valid ≠ 0) ∨
      w.router.pd.Queued m.server (keyOf d)
  returns : ∀ k l, (w.router.pd.updated m now).get k = some l → l.used = false →
    (Room w ∧ l.server = m.server) ∨ w.router.pd.Queued l.server k
  inUse : ¬ Room w → (∃ k l, (w.router.pd.updated m now).get k = some l ∧ l.used = false) →
    ∀ k l, w.router.pd.leases.get k = some l → l.used = true →
      ∃ l', (w.router.pd.updated m now).get k = some l' ∧ l'.used = true

/-- A lease in use is a lease that is used. -/
theorem contains_used {leases : OrdMap LeaseKey Lease} {k : LeaseKey} :
    (leases.retain fun _ l => l.used).contains k = true ↔
      ∃ l, leases.get k = some l ∧ l.used = true := by
  simp [OrdMap.contains_iff, Option.filter_eq_some_iff]

/-- A live lease is a lease that is live. -/
theorem get_liveLeases {p : PdClient} {k : LeaseKey} {l : Lease} :
    (p.liveLeases now).get k = some l ↔ p.leases.get k = some l ∧ l.valid.live now = true := by
  simp [liveLeases, Option.filter_eq_some_iff]

/-- When a crowded client remembers what a reply says: if nothing in it is new or there is room to
release it, and if the leases in use are live. What the client holds afterwards is what was live
before. -/
theorem crowded_iff (hstatus : m.status = 0) (hc : w.router.pd.crowded m now) :
    Remembers m now w.router.pd (install m now w).1 (install m now w).2.router.pd ↔
      CrowdedOk w m now := by
  obtain ⟨result, w', hrun, herr, hleases, hqueued⟩ := install_crowded hstatus hc
  rw [hrun]
  constructor
  · intro h
    refine ⟨?_, fun k l hl hused => ?_⟩
    · rcases Classical.em (Room w) with hroom | hroom
      · exact .inl hroom
      · refine .inr fun d hd hv => (h.delegated d hd hv).imp (fun hin => ?_) fun hq => ?_
        · rwa [hleases] at hin
        · exact ((hqueued _ _).1 hq).resolve_right fun hnew => hroom hnew.1
    · obtain ⟨e, he⟩ := herr
      have hin := h.inUse e he k l hl hused
      rw [hleases, OrdMap.contains_iff] at hin
      obtain ⟨l', hl'⟩ := hin
      obtain ⟨hget, hlive⟩ := get_liveLeases.1 hl'
      rw [hl] at hget
      cases hget
      exact hlive
  · intro h
    refine ⟨fun d hd hv => ?_, fun k l hl hlive _ => .inl ?_, fun e _ k l hl hused => ?_⟩
    · rcases hin : (w.router.pd.liveLeases now).contains (keyOf d) with _ | _
      · refine .inr ((hqueued _ _).2 ?_)
        rcases h.returns with hroom | hall
        · exact .inr ⟨hroom, rfl, d, hd, hv, hin, rfl⟩
        · refine .inl ((hall d hd hv).resolve_left fun hin' => ?_)
          rw [hin] at hin'
          cases hin'
      · exact .inl (hleases ▸ hin)
    · rw [hleases]
      exact OrdMap.contains_iff.2 ⟨l, get_liveLeases.2 ⟨hl, hlive⟩⟩
    · rw [hleases]
      exact OrdMap.contains_iff.2 ⟨l, get_liveLeases.2 ⟨hl, h.inUse k l hl hused⟩⟩

/-- A lease as the answer leaves it is accounted for if it is in use or can be given back. What is
not in use is in the new release, or was in the queue before. -/
theorem accounted_iff {p' : PdClient} {result : Except IoError Unit} {k : LeaseKey} {l : Lease}
    (hleases : p'.leases = (w.router.pd.updated m now).retain fun _ l => l.used)
    (hret : Returned w m.server (fun k => ∃ l, (w.router.pd.updated m now).get k = some l ∧
      l.used = false) result p')
    (hl : (w.router.pd.updated m now).get k = some l) :
    p'.Accounted l.server k ↔
      (l.used = false → (Room w ∧ l.server = m.server) ∨ w.router.pd.Queued l.server k) := by
  rw [Accounted, hleases, contains_used, hret.queued, hl]
  cases hu : l.used with
  | true => simp [hu]
  | false =>
    simp only [Option.some.injEq, exists_eq_left', hu, Bool.false_eq_true, false_or, and_true,
      true_implies]
    exact or_comm

/-- When a client with room remembers what a reply says. What it holds are the leases in use, and
the others are queued for release; each clause of `RoomyOk` names the leases for which one of the
two would fail. -/
theorem roomy_iff (hstatus : m.status = 0) (hc : ¬ w.router.pd.crowded m now) :
    Remembers m now w.router.pd (install m now w).1 (install m now w).2.router.pd ↔
      RoomyOk w m now := by
  obtain ⟨result, w', hrun, hleases, hret⟩ := install_roomy hstatus hc
  rw [hrun]
  have haccounted {k : LeaseKey} {l : Lease} := accounted_iff (k := k) (l := l) hleases hret
  constructor
  · intro h
    refine ⟨fun d hd hv => ?_, fun k l hl => ?_, fun hroom hunused k l hl hused => ?_⟩
    · have hnone : lastOf m.delegations (keyOf d) ≠ none := fun hn => lastOf_eq_none.1 hn d hd rfl
      rcases updated_cases w.router.pd m now (keyOf d) with
        ⟨hlast, -⟩ | ⟨hlast, -⟩ | ⟨d', hlast, hv', hget⟩ | ⟨d', hlast, hv', -⟩
      · exact absurd hlast hnone
      · exact absurd hlast hnone
      · refine .inr ?_
        have hacc := h.delegated d hd hv
        rw [Accounted, hleases, contains_used, hret.queued, hget] at hacc
        simpa using hacc
      · exact .inl ⟨d', hlast, hv'⟩
    · refine haccounted hl |>.1 ?_
      rcases updated_cases w.router.pd m now k with
        ⟨-, -, hget⟩ | ⟨hlast, l₀, l', hlive, hget, hserver⟩ | ⟨d, -, -, hget⟩ |
        ⟨d, hlast, hv, l', hget, hserver⟩
      · rw [hl] at hget
        cases hget
      · rw [hl] at hget
        cases hget
        obtain ⟨hget₀, hlive⟩ := get_liveLeases.1 hlive
        have hacc := h.leased k l₀ hget₀ hlive fun d hd hk =>
          absurd hk (lastOf_eq_none.1 hlast d hd)
        rwa [delegator, if_neg fun ⟨d, hd, hk⟩ => lastOf_eq_none.1 hlast d hd hk, ← hserver] at hacc
      · rw [hl] at hget
        cases hget
      · rw [hl] at hget
        cases hget
        obtain ⟨hd, rfl⟩ := lastOf_eq_some hlast
        rw [hserver]
        exact h.delegated d hd hv
    · obtain ⟨e, he⟩ := hret.failed.2 ⟨hunused, hroom⟩
      have hin := h.inUse e he k l hl hused
      rw [hleases] at hin
      exact contains_used.1 hin
  · intro h
    refine ⟨fun d hd hv => ?_, fun k l hl hlive hno => ?_, fun e he k l hl hused => ?_⟩
    · rcases h.stands d hd hv with ⟨d', hlast, hv'⟩ | hq
      · rcases updated_cases w.router.pd m now (keyOf d) with
          ⟨hn, -⟩ | ⟨hn, -⟩ | ⟨d₁, hlast₁, hv₁, -⟩ | ⟨-, -, -, l, hget, hserver⟩
        · rw [hlast] at hn
          cases hn
        · rw [hlast] at hn
          cases hn
        · rw [hlast] at hlast₁
          cases hlast₁
          exact absurd hv₁ hv'
        · rw [← hserver]
          exact (haccounted hget).2 (h.returns _ l hget)
      · exact .inr ((hret.queued _ _).2 (.inl hq))
    · rcases updated_cases w.router.pd m now k with
        ⟨-, hnone, -⟩ | ⟨hlast, l₀, l', hlive₀, hget, hserver⟩ | ⟨d, hlast, hv, -⟩ |
        ⟨d, hlast, hv, l', hget, hserver⟩
      · rw [get_liveLeases.2 ⟨hl, hlive⟩] at hnone
        cases hnone
      · rw [get_liveLeases.2 ⟨hl, hlive⟩] at hlive₀
        cases hlive₀
        rw [delegator, if_neg fun ⟨d, hd, hk⟩ => lastOf_eq_none.1 hlast d hd hk, ← hserver]
        exact (haccounted hget).2 (h.returns k l' hget)
      · obtain ⟨hd, hk⟩ := lastOf_eq_some hlast
        exact absurd hv (hno d hd hk)
      · obtain ⟨hd, hk⟩ := lastOf_eq_some hlast
        rw [delegator, if_pos ⟨d, hd, hk⟩, ← hserver]
        exact (haccounted hget).2 (h.returns k l' hget)
    · obtain ⟨hunused, hroom⟩ := hret.failed.1 ⟨e, he⟩
      rw [hleases]
      exact contains_used.2 (h.inUse hroom hunused k l hl hused)

/-- An answer without an error forgets no delegated prefix exactly when what it leaves over can be
given back. Reference: `PdClient::install` (`router/pd.rs:346`). -/
theorem install_remembers_iff (hstatus : m.status = 0) :
    Remembers m now w.router.pd (install m now w).1 (install m now w).2.router.pd ↔
      if w.router.pd.crowded m now then CrowdedOk w m now else RoomyOk w m now := by
  split
  · next hc => exact crowded_iff hstatus hc
  · next hc => exact roomy_iff hstatus hc

end Install

/-! ## One answer -/

/-- Two delegations of one association. -/
def sampleReply (ds : List Delegation) : Message := ⟨7, [0, 0, 1], [], [1], 0, none, 0, ds⟩

def sampleDelegation (n : Nat) : Delegation :=
  ⟨1, 0, 0, ⟨.ofValue (0x20010db8 * 2 ^ 96 + n * 2 ^ 64), 64⟩, 1800, 3600⟩

/-- A router whose client has queued some Releases. -/
def sampleWorld (releases : Nat) : World where
  router := { fresh ⟨"", ⟨.ofValue (0xfd * 2 ^ 120), 48⟩, ⟨1, 1⟩,
      ⟨⟨List.replicate 6 0, rfl⟩, ⟨List.replicate 6 0, rfl⟩⟩, ⟨List.replicate 18 0, rfl⟩⟩
    ⟨.default, ⟨.empty⟩, ⟨.ofValue 0, 96⟩, .empty, false, (.none, ""), .empty⟩
    (newLink 0 0 0) (newLink 0 0 0) with
    pd := { PdClient.default with
      state := .requesting
      releases := List.replicate releases ⟨⟨8, [0, 0, 0], 0, 0, 1000, 0, [2]⟩, []⟩ } }
  draw := fun _ _ => .ok 0
  used := 0

/-- The theorem applied to a reply with one delegation, which is remembered. -/
theorem install_remembers_one :
    (sampleReply [sampleDelegation 1]).status = 0 ∧
    Remembers (sampleReply [sampleDelegation 1]) 0 (sampleWorld 0).router.pd
      (install (sampleReply [sampleDelegation 1]) 0 (sampleWorld 0)).1
      (install (sampleReply [sampleDelegation 1]) 0 (sampleWorld 0)).2.router.pd := by
  refine ⟨rfl, (install_remembers_iff rfl).2 ?_⟩
  rw [if_neg (by decide +kernel)]
  have hroom : Room (sampleWorld 0) := ⟨by decide, 0, rfl⟩
  have hused :
      ∀ e ∈ ((sampleWorld 0).router.pd.updated (sampleReply [sampleDelegation 1]) 0).entries,
      e.2.used = true := by decide +kernel
  refine ⟨fun d hd hv => .inl ?_, fun k l hl hno => ?_, fun hno => absurd hroom hno⟩
  · rw [List.mem_singleton.1 hd]
    exact ⟨sampleDelegation 1, lastOf_concat [] _ _, by decide⟩
  · rw [hused (k, l) (OrdMap.mem_iff_get.2 hl)] at hno
    cases hno

/-- With sixteen Releases in the queue a second prefix is forgotten: it is neither leased nor
released, since the queue is full. -/
theorem install_forgets :
    ¬ Remembers (sampleReply [sampleDelegation 1, sampleDelegation 2]) 0 (sampleWorld 16).router.pd
      (install (sampleReply [sampleDelegation 1, sampleDelegation 2]) 0 (sampleWorld 16)).1
      (install (sampleReply [sampleDelegation 1, sampleDelegation 2]) 0
       (sampleWorld 16)).2.router.pd := by
  intro h
  exact absurd (h.delegated (sampleDelegation 2) (List.mem_cons_of_mem _ List.mem_cons_self)
    (by decide)) (by decide +kernel)

end SnacMachine.Router.PdClient
