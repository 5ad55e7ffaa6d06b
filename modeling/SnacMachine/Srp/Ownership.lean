import SnacMachine.Lib.Run
import SnacMachine.Srp.Journal

/-!
# First come, first served

Ownership of names over whole runs of a registry. The claim on a name is its live host's, or else
its live service's; `Consistent` says that the two never disagree about the public key. An update is
admitted only when it carries the public key of every live claim it names (`admits_key`), so what
one step does to the claims of another key is nothing (`claim_next`), and the two facts carry over
runs (`ownership`).
-/

namespace SnacMachine.Srp

open Dns

namespace Registry

/-- The operations of a registry. -/
inductive Op
  | apply (now : Nat) (u : Update) (save : Bytes → Bool) (wall : Nat)
      (accept : Registry → Except Error Unit)
  | expire (now : Nat)
  | setPolicy (now : Nat) (p : LeasePolicy)

/-- What an operation returns. -/
inductive Answer
  | applied (result : Except Error Grant) (saved : Option Bytes)
  | done

/-- When an operation is performed. -/
def Op.now : Op → Nat
  | .apply now .. => now
  | .expire now => now
  | .setPolicy now _ => now

/-- One operation. A refused policy leaves the registry as it is. -/
def step (c : Crypto) (r : Registry) : Op → Registry × Answer
  | .apply now u save wall accept =>
    let a := r.applyChecked c u save now wall accept
    (a.registry, .applied a.result a.saved)
  | .expire now => (r.expire now, .done)
  | .setPolicy _ p => ((r.setPolicy p).getD r, .done)

/-- The registry as a machine whose callers promise `legal`. -/
def machine (c : Crypto) (legal : Registry → Op → Prop) : Machine Registry Op Answer :=
  ⟨step c, Op.now, legal⟩

/-- Whether an event is an update under a public key that was committed. -/
def appliedBy (k : Key) : Op × Answer → Bool
  | (.apply _ u _ _ _, .applied (.ok _) (some _)) => k.samePublicKey u.key
  | _ => false

/-- A live host and a live service of one name have one public key. -/
def Consistent (r : Registry) (now : Nat) : Prop :=
  ∀ n h s, r.hosts.get n = some h → r.services.get n = some s →
    now < h.keyExpires → now < s.keyExpires → h.key.samePublicKey s.key = true

/-! ## Claims -/

/-- The claim of a host is its key, as long as its key lease lives. -/
theorem hostClaim_eq_some {r : Registry} {n : Name} {now e : Nat} {k : Key} :
    r.hostClaim n now = some (k, e) ↔
      ∃ h, r.hosts.get n = some h ∧ now < h.keyExpires ∧ h.key = k ∧ h.keyExpires = e := by
  simp [hostClaim, Option.filter_eq_some_iff, and_assoc]

/-- The claim of a service is its key, as long as its key lease lives. -/
theorem serviceClaim_eq_some {r : Registry} {n : Name} {now e : Nat} {k : Key} :
    r.serviceClaim n now = some (k, e) ↔
      ∃ s, r.services.get n = some s ∧ now < s.keyExpires ∧ s.key = k ∧ s.keyExpires = e := by
  simp [serviceClaim, Option.filter_eq_some_iff, and_assoc]

/-- A host has no claim just when its key lease is over, or it does not exist. -/
theorem hostClaim_eq_none {r : Registry} {n : Name} {now : Nat} :
    r.hostClaim n now = none ↔ ∀ h, r.hosts.get n = some h → h.keyExpires ≤ now := by
  simp [hostClaim, Option.filter_eq_none_iff]

/-- A claim is the host's, or the service's where no host is live. -/
theorem claim_eq_some {r : Registry} {n : Name} {now : Nat} {p : Key × Nat} :
    r.claim n now = some p ↔
      r.hostClaim n now = some p ∨ r.hostClaim n now = none ∧ r.serviceClaim n now = some p := by
  unfold claim
  cases r.hostClaim n now <;> simp

/-- The key of a name is the key of its claim. -/
theorem key_eq_claim (r : Registry) (n : Name) (now : Nat) :
    r.key n now = (r.claim n now).map Prod.fst := by
  unfold key claim hostClaim serviceClaim
  cases (r.hosts.get n).filter fun h => decide (h.keyExpires > now) with
  | none => simp [Function.comp_def]
  | some h => rfl

/-- The key of a name does not depend on the case of the name. -/
theorem key_congr (r : Registry) {n n' : Name} (now : Nat) (h : SameKey n n') :
    r.key n now = r.key n' now := by
  unfold key
  rw [OrdMap.get_congr _ h, OrdMap.get_congr _ h]

/-- A live claim stays until its key lease ends. -/
theorem claim_later {r : Registry} {n : Name} {now t e : Nat} {k : Key}
    (h : r.claim n now = some (k, e)) (hle : now ≤ t) (ht : t < e) : r.claim n t = some (k, e) := by
  rcases claim_eq_some.1 h with hh | ⟨hn, hs⟩
  · obtain ⟨x, hx, -, hk, he⟩ := hostClaim_eq_some.1 hh
    exact claim_eq_some.2 (.inl (hostClaim_eq_some.2 ⟨x, hx, he ▸ ht, hk, he⟩))
  · obtain ⟨x, hx, -, hk, he⟩ := serviceClaim_eq_some.1 hs
    refine claim_eq_some.2 (.inr ⟨hostClaim_eq_none.2 fun y hy => ?_,
      serviceClaim_eq_some.2 ⟨x, hx, he ▸ ht, hk, he⟩⟩)
    exact (hostClaim_eq_none.1 hn y hy).trans hle

/-- The key of a name with a live host is the key of the host. -/
theorem key_of_host {r : Registry} {n : Name} {h : Host} {now : Nat} (hh : r.hosts.get n = some h)
    (hl : now < h.keyExpires) : r.key n now = some h.key := by
  rw [key_eq_claim, claim_eq_some.2 (.inl (hostClaim_eq_some.2 ⟨h, hh, hl, rfl, rfl⟩))]
  rfl

/-- In a consistent registry a live service has the public key of its name. The name's key is that
of its host if there is one, and the two agree. -/
theorem key_of_service {r : Registry} {n : Name} {s : Service} {now : Nat} (hc : r.Consistent now)
    (hs : r.services.get n = some s) (hl : now < s.keyExpires) :
    ∃ k, r.key n now = some k ∧ k.samePublicKey s.key = true := by
  cases hh : r.hostClaim n now with
  | none =>
    have : r.serviceClaim n now = some (s.key, s.keyExpires) :=
      serviceClaim_eq_some.2 ⟨s, hs, hl, rfl, rfl⟩
    refine ⟨s.key, ?_, Key.samePublicKey_self _⟩
    rw [key_eq_claim, claim_eq_some.2 (.inr ⟨hh, this⟩)]
    rfl
  | some p =>
    obtain ⟨h, hh', hl', -, -⟩ := hostClaim_eq_some.1 hh
    exact ⟨h.key, key_of_host hh' hl', hc n h s hh' hs hl' hl⟩

/-! ## What expiry keeps -/

/-- Expiry leaves the key of a host alone. -/
@[simp] theorem Host.expire_key (now : Nat) (h : Host) : (h.expire now).key = h.key := by
  unfold Host.expire; split <;> rfl

/-- Expiry leaves the key lease of a host alone. -/
@[simp] theorem Host.expire_keyExpires (now : Nat) (h : Host) :
    (h.expire now).keyExpires = h.keyExpires := by
  unfold Host.expire; split <;> rfl

/-- Expiry keeps the hosts whose key lease lives. -/
theorem expire_hosts_get (r : Registry) (now : Nat) (n : Name) :
    (r.expire now).hosts.get n =
      ((r.hosts.get n).filter fun h => decide (h.keyExpires > now)).map (Host.expire now) := by
  simp only [expire, OrdMap.get_mapValues_values, OrdMap.get_retain_values]

/-- Expiry keeps the services whose key lease lives; those without a live host or record lease
lapse. -/
theorem expire_services_get (r : Registry) (now : Nat) (n : Name) :
    (r.expire now).services.get n =
      ((r.services.get n).filter fun s => decide (s.keyExpires > now)).map fun s =>
        if s.expires ≤ now ∨ (((r.expire now).hosts.get s.host).any fun h =>
          decide (h.expires > now) && h.key.samePublicKey s.key) = false then s.lapse else s := by
  simp only [expire, OrdMap.get_mapValues_values, OrdMap.get_retain_values]

/-- A host after expiry is a host from before, whose key lease lives. -/
theorem expire_host {r : Registry} {now : Nat} {n : Name} {h : Host}
    (hh : (r.expire now).hosts.get n = some h) :
    ∃ h₀, r.hosts.get n = some h₀ ∧ now < h₀.keyExpires ∧ h = h₀.expire now := by
  rw [expire_hosts_get] at hh
  obtain ⟨h₀, h₁, rfl⟩ := Option.map_eq_some_iff.1 hh
  obtain ⟨h₁, h₂⟩ := Option.filter_eq_some_iff.1 h₁
  exact ⟨h₀, h₁, of_decide_eq_true h₂, rfl⟩

/-- A service after expiry is a service from before, whose key lease lives. -/
theorem expire_service {r : Registry} {now : Nat} {n : Name} {s : Service}
    (hs : (r.expire now).services.get n = some s) :
    ∃ s₀, r.services.get n = some s₀ ∧ now < s₀.keyExpires ∧ (s = s₀ ∨ s = s₀.lapse) := by
  rw [expire_services_get] at hs
  obtain ⟨s₀, h₁, rfl⟩ := Option.map_eq_some_iff.1 hs
  obtain ⟨h₁, h₂⟩ := Option.filter_eq_some_iff.1 h₁
  refine ⟨s₀, h₁, of_decide_eq_true h₂, ?_⟩
  split
  · exact .inr rfl
  · exact .inl rfl

/-- Expiry up to a moment changes no claim that is live later. -/
theorem hostClaim_expire (r : Registry) {now t : Nat} (n : Name) (hle : now ≤ t) :
    (r.expire now).hostClaim n t = r.hostClaim n t := by
  unfold hostClaim
  rw [expire_hosts_get]
  cases r.hosts.get n with
  | none => rfl
  | some h =>
    by_cases hl : now < h.keyExpires
    · by_cases ht : t < h.keyExpires <;> simp [Option.filter, hl, ht]
    · have : ¬ t < h.keyExpires := by omega
      simp [Option.filter, hl, this]

/-- Expiry does not change the claim of a service at any later time. A service whose key lease has
run out has no claim at any later time either. -/
theorem serviceClaim_expire (r : Registry) {now t : Nat} (n : Name) (hle : now ≤ t) :
    (r.expire now).serviceClaim n t = r.serviceClaim n t := by
  unfold serviceClaim
  rw [expire_services_get]
  cases r.services.get n with
  | none => rfl
  | some s =>
    by_cases hl : now < s.keyExpires
    · by_cases ht : t < s.keyExpires
      · simp only [Option.filter, gt_iff_lt, hl, decide_true, if_true, Option.map_some]
        split <;> simp [Service.lapse, ht]
      · simp only [Option.filter, gt_iff_lt, hl, decide_true, if_true, Option.map_some]
        split <;> simp [Service.lapse, ht]
    · have : ¬ t < s.keyExpires := by omega
      simp [Option.filter, hl, this]

/-- Claims that agree do so at any later time. -/
theorem Consistent.later {r : Registry} {now t : Nat} (h : r.Consistent now) (hle : now ≤ t) :
    r.Consistent t := fun n x s hx hs h₁ h₂ =>
  h n x s hx hs (Nat.lt_of_le_of_lt hle h₁) (Nat.lt_of_le_of_lt hle h₂)

/-- Expiry leaves hosts and services in agreement. -/
theorem Consistent.expire {r : Registry} {now : Nat} (h : r.Consistent now) (t : Nat) :
    (r.expire t).Consistent now := by
  intro n x s hx hs h₁ h₂
  obtain ⟨x₀, hx₀, -, rfl⟩ := expire_host hx
  obtain ⟨s₀, hs₀, -, rfl | rfl⟩ := expire_service hs
  · simpa using h n x₀ s hx₀ hs₀ (by simpa using h₁) h₂
  · simpa [Service.lapse] using h n x₀ s₀ hx₀ hs₀ (by simpa using h₁) h₂

/-! ## What an admitted update does -/

/-- An admitted update carries the public key of every live claim it names. -/
theorem admits_key {r : Registry} {u : Update} {now : Nat} {g : Grant} (h : r.admits u now = .ok g)
    {n n' : Name} (hn : n' = u.host ∨ ∃ s ∈ u.services, n' = s.name) (hs : SameKey n' n) {k : Key}
    (hk : r.key n now = some k) : k.samePublicKey u.key = true := by
  unfold admits at h
  split at h
  · exact absurd h (by simp)
  · next hany =>
    simp only [Bool.not_eq_true, List.any_eq_false, List.mem_cons, List.mem_map] at hany
    have := hany n' (hn.imp id fun ⟨s, hs, he⟩ => ⟨s, hs, he.symm⟩)
    rw [key_congr r now hs, hk] at this
    simpa using this

/-- The services after an update: those it names are its own, the others are as they were. By
recursion on the services of the update; the last one of a name counts. -/
theorem foldl_insert_get (f : ServiceUpdate → Service) (n : Name) : ∀ (ss : List ServiceUpdate)
    (m : OrdMap Name Service),
    (∃ s ∈ ss, SameKey s.name n ∧
     (ss.foldl (fun m s => m.insert s.name (f s)) m).get n = some (f s)) ∨
    ((∀ s ∈ ss, ¬ SameKey s.name n) ∧
     (ss.foldl (fun m s => m.insert s.name (f s)) m).get n = m.get n)
  | [], m => .inr ⟨by simp, rfl⟩
  | s :: ss, m => by
    rcases foldl_insert_get f n ss (m.insert s.name (f s)) with ⟨x, hx, hn, he⟩ | ⟨hn, he⟩
    · exact .inl ⟨x, List.mem_cons_of_mem _ hx, hn, he⟩
    · by_cases hs : SameKey s.name n
      · refine .inl ⟨s, List.mem_cons_self, hs, ?_⟩
        rw [List.foldl_cons, he, OrdMap.get_insert, if_pos hs]
      · refine .inr ⟨fun x hx => ?_, ?_⟩
        · rcases List.mem_cons.1 hx with rfl | hx
          · exact hs
          · exact hn x hx
        · rw [List.foldl_cons, he, OrdMap.get_insert_of_ne _ _ hs]

/-- Withdrawing the services of a host leaves each service alone, or lapses it if the update owns
it. -/
theorem withdraw_get (m : OrdMap Name Service) (u : Update) (g : Grant) (n : Name) :
    (withdraw m u g).get n = m.get n ∨
      ∃ s, m.get n = some s ∧ ownedBy u s = true ∧ g.lease = 0 ∧
        (withdraw m u g).get n = some s.lapse := by
  unfold withdraw
  split
  · next hz =>
    cases h : m.get n with
    | none => exact .inl (by simp [h])
    | some s =>
      by_cases ho : ownedBy u s = true
      · exact .inr ⟨s, rfl, ho, hz, by simp [h, ho]⟩
      · exact .inl (by simp [h, ho])
  · exact .inl rfl

/-- A host after an update: the update's own, or one that was live before at another name. Without a
key lease the host is removed, and otherwise it is entered. -/
theorem next_host {r : Registry} {u : Update} {g : Grant} {now : Nat} {n : Name} {h : Host}
    (hh : (r.next u g now).hosts.get n = some h) :
    (SameKey u.host n ∧ g.keyLease ≠ 0 ∧ h = hostOf r u g now) ∨
      ¬ SameKey u.host n ∧ (r.expire now).hosts.get n = some h := by
  unfold next at hh
  by_cases hz : g.keyLease = 0
  · simp only [hz, if_true, release] at hh
    rw [OrdMap.get_remove] at hh
    split at hh
    · exact absurd hh (by simp)
    · next hn => exact .inr ⟨fun h' => hn h'.symm, hh⟩
  · simp only [hz, if_false, register] at hh
    rw [OrdMap.get_insert] at hh
    split at hh
    · next hn => exact .inl ⟨hn, hz, (Option.some.inj hh).symm⟩
    · next hn => exact .inr ⟨hn, hh⟩

/-- A service after an update: one of the update's own, or one that was live before at a name the
update does not name, possibly without its records. -/
theorem next_service {r : Registry} {u : Update} {g : Grant} {now : Nat} {n : Name} {s : Service}
    (hs : (r.next u g now).services.get n = some s) :
    (∃ x ∈ u.services, SameKey x.name n ∧ g.keyLease ≠ 0 ∧ s = serviceOf r u g now x) ∨
      ∃ s₀, (r.expire now).services.get n = some s₀ ∧
        (s = s₀ ∨ ownedBy u s₀ = true ∧ g.lease = 0 ∧ s = s₀.lapse) := by
  unfold next at hs
  by_cases hz : g.keyLease = 0
  · simp only [hz, if_true, release, OrdMap.get_retain_values] at hs
    exact .inr ⟨s, (Option.filter_eq_some_iff.1 hs).1, .inl rfl⟩
  · simp only [hz, if_false, register] at hs
    rcases foldl_insert_get (serviceOf r u g now) n u.services
        (withdraw (r.expire now).services u g) with ⟨x, hx, hn, he⟩ | ⟨-, he⟩
    · rw [he] at hs
      exact .inl ⟨x, hx, hn, hz, (Option.some.inj hs).symm⟩
    · rw [he] at hs
      rcases withdraw_get (r.expire now).services u g n with hw | ⟨s₀, h₀, ho, hl, hw⟩
      · exact .inr ⟨s, hw ▸ hs, .inl rfl⟩
      · rw [hw] at hs
        exact .inr ⟨s₀, h₀, .inr ⟨ho, hl, (Option.some.inj hs).symm⟩⟩

/-- An update touches no host at another name. -/
theorem next_hosts_frame (r : Registry) {u : Update} (g : Grant) (now : Nat) {n : Name}
    (hn : ¬ SameKey u.host n) : (r.next u g now).hosts.get n = (r.expire now).hosts.get n := by
  unfold next
  split
  · simp only [release, OrdMap.get_remove]
    rw [if_neg fun h => hn h.symm]
  · simp only [register]
    rw [OrdMap.get_insert_of_ne _ _ hn]

/-- An update touches no service of another public key at a name that it does not name. A release
takes only services of its own key. -/
theorem next_services_frame (r : Registry) {u : Update} (g : Grant) (now : Nat) {n : Name}
    (hn : ∀ x ∈ u.services, ¬ SameKey x.name n) {s : Service}
    (hs : (r.expire now).services.get n = some s) (hk : s.key.samePublicKey u.key = false) :
    (r.next u g now).services.get n = some s := by
  have ho : ownedBy u s = false := by simp [ownedBy, hk]
  unfold next
  split
  · simp [release, hs, ho]
  · simp only [register]
    rcases foldl_insert_get (serviceOf r u g now) n u.services
        (withdraw (r.expire now).services u g) with ⟨x, hx, hx', -⟩ | ⟨-, he⟩
    · exact absurd hx' (hn x hx)
    · rw [he]
      rcases withdraw_get (r.expire now).services u g n with hw | ⟨s₀, h₀, ho', -⟩
      · rw [hw, hs]
      · rw [hs] at h₀
        rw [← Option.some.inj h₀, ho] at ho'
        exact absurd ho' (by simp)

/-- An admitted update changes no live claim of another public key. The update writes only names
that its key may have, and a name with a claim of another key is not among them (`admits_key`). -/
theorem claim_next {r : Registry} {u : Update} {g : Grant} {now e : Nat} {n : Name} {k : Key}
    (ha : r.admits u now = .ok g) (h : r.claim n now = some (k, e))
    (hk : k.samePublicKey u.key = false) : (r.next u g now).claim n now = some (k, e) := by
  have hkey : r.key n now = some k := by rw [key_eq_claim, h]; rfl
  have hnamed : ∀ n', (n' = u.host ∨ ∃ s ∈ u.services, n' = s.name) → ¬ SameKey n' n :=
    fun n' hn hs => by simpa [hk] using admits_key ha hn hs hkey
  have hhost := next_hosts_frame r g now (hnamed u.host (.inl rfl))
  rcases claim_eq_some.1 h with hh | ⟨hnone, hs⟩
  · refine claim_eq_some.2 (.inl ?_)
    rw [← hostClaim_expire r n (Nat.le_refl now)] at hh
    unfold hostClaim at hh ⊢
    rw [hhost]
    exact hh
  · refine claim_eq_some.2 (.inr ⟨?_, ?_⟩)
    · rw [← hostClaim_expire r n (Nat.le_refl now)] at hnone
      unfold hostClaim at hnone ⊢
      rw [hhost]
      exact hnone
    · rw [← serviceClaim_expire r n (Nat.le_refl now)] at hs
      obtain ⟨s, hget, hl, rfl, rfl⟩ := serviceClaim_eq_some.1 hs
      have := next_services_frame r g now (fun x hx => hnamed x.name (.inr ⟨x, hx, rfl⟩)) hget hk
      exact serviceClaim_eq_some.2 ⟨s, this, hl, rfl, rfl⟩

/-- An admitted update keeps hosts and services of one name in agreement. A new host meets an old
service, or a new service an old host, only under the key of the update. -/
theorem Consistent.next {r : Registry} {u : Update} {g : Grant} {now : Nat} (hc : r.Consistent now)
    (ha : r.admits u now = .ok g) : (r.next u g now).Consistent now := by
  intro n h s hh hs hlh hls
  rcases next_host hh with ⟨hn, -, rfl⟩ | ⟨-, hh⟩
  · rcases next_service hs with ⟨x, hx, -, -, rfl⟩ | ⟨s₀, h₀, hs₀⟩
    · exact Key.samePublicKey_self _
    · obtain ⟨s₁, h₁, hl₁, hs₁⟩ := expire_service h₀
      obtain ⟨k, hk, hks⟩ := key_of_service hc h₁ hl₁
      have hsk : s.key = s₁.key := by
        rcases hs₀ with rfl | ⟨-, -, rfl⟩ <;> rcases hs₁ with rfl | rfl <;> rfl
      rw [hsk]
      exact Key.samePublicKey_trans
        (Key.samePublicKey_symm (admits_key ha (.inl rfl) hn hk)) hks
  · obtain ⟨h₀, hh₀, hl₀, rfl⟩ := expire_host hh
    rcases next_service hs with ⟨x, hx, hn, -, rfl⟩ | ⟨s₀, h₀', hs₀⟩
    · rw [Host.expire_key]
      exact admits_key ha (.inr ⟨x, hx, rfl⟩) hn (key_of_host hh₀ hl₀)
    · obtain ⟨s₁, h₁, hl₁, hs₁⟩ := expire_service h₀'
      have hsk : s.key = s₁.key := by
        rcases hs₀ with rfl | ⟨-, -, rfl⟩ <;> rcases hs₁ with rfl | rfl <;> rfl
      rw [hsk, Host.expire_key]
      exact hc n h₀ s₁ hh₀ h₁ hl₀ hl₁

/-- An update changes the registry only to `next`, when it is admitted and accepted. The checks
stand in the order of the source, and every one that fails leaves the registry as it was. -/
theorem applyChecked_cases (c : Crypto) (r : Registry) (u : Update) (save : Bytes → Bool)
    (now wall : Nat) (accept : Registry → Except Error Unit) :
    (r.applyChecked c u save now wall accept).registry = r ∨
      ∃ g bytes, r.admits u now = .ok g ∧ (r.next u g now).checkBounds = true ∧
        accept (r.next u g now) = .ok () ∧ Journal.encode c (r.next u g now) now wall = some bytes ∧
        save bytes = true ∧
        r.applyChecked c u save now wall accept = ⟨.ok g, r.next u g now, some bytes⟩ := by
  unfold applyChecked
  split
  · exact .inl rfl
  · split
    · exact .inl rfl
    · next g ha =>
      simp only
      split
      · exact .inl rfl
      · next hb =>
        split
        · exact .inl rfl
        · next hacc =>
          split
          · exact .inl rfl
          · next bytes he =>
            split
            · next hsave =>
              exact .inr ⟨g, bytes, ha, by simpa using hb, hacc, he, hsave, rfl⟩
            · exact .inl rfl

/-! ## Steps and runs -/

/-- What one step leaves of a registry: what was there, with another policy or without what has
expired, or the registry of an update that was committed. -/
inductive Stepped (r : Registry) : Op → Registry × Answer → Prop
  | kept (o : Op) (answer : Answer) : Stepped r o (r, answer)
  | committed {now wall : Nat} {u : Update} {save : Bytes → Bool}
      {accept : Registry → Except Error Unit} {g : Grant} {bytes : Bytes}
      (admitted : r.admits u now = .ok g) :
      Stepped r (.apply now u save wall accept) (r.next u g now, .applied (.ok g) (some bytes))
  | expired (now : Nat) : Stepped r (.expire now) (r.expire now, .done)
  | policy (now : Nat) {p : LeasePolicy} (valid : p.validate = true) :
      Stepped r (.setPolicy now p) ({ r with policy := p }, .done)

/-- Every step is of one of these kinds. The facts about what a step keeps are split by them. -/
theorem step_cases (c : Crypto) (r : Registry) (o : Op) : r.Stepped o (r.step c o) := by
  cases o with
  | apply now u save wall accept =>
    simp only [step]
    rcases applyChecked_cases c r u save now wall accept with h | ⟨g, bytes, ha, -, -, -, -, h⟩
    · rw [h]
      exact .kept _ _
    · rw [h]
      exact .committed ha
  | expire now => exact .expired now
  | setPolicy now p =>
    simp only [step, setPolicy]
    split
    · next valid => exact .policy now valid
    · exact .kept _ _

/-- One step leaves hosts and services in agreement. An update does by `Consistent.next`, an expiry
removes entries, and a policy changes none. -/
theorem Consistent.step {c : Crypto} {r : Registry} {t : Nat} (hc : r.Consistent t) (o : Op)
    (hle : t ≤ o.now) : (r.step c o).1.Consistent o.now := by
  have hc := hc.later hle
  have h := step_cases c r o
  generalize r.step c o = x at h
  cases h with
  | kept => exact hc
  | committed admitted => exact hc.next admitted
  | expired now => exact hc.expire now
  | policy => exact hc

/-- A step without a committed update under a claim's public key keeps the claim. An update of
another key does by `claim_next`; an expiry and a new policy leave it alone. -/
theorem claim_step {c : Crypto} {r : Registry} {t e : Nat} {n : Name} {k : Key} (o : Op)
    (h : r.claim n t = some (k, e)) (hle : t ≤ o.now) (he : o.now < e)
    (hno : appliedBy k (o, (r.step c o).2) = false) :
    (r.step c o).1.claim n o.now = some (k, e) := by
  have h := claim_later h hle he
  have hstep := step_cases c r o
  generalize r.step c o = x at hstep hno
  cases hstep with
  | kept => exact h
  | committed admitted => exact claim_next admitted h hno
  | expired now =>
    simp only [Op.now] at h ⊢
    unfold claim at h ⊢
    rw [hostClaim_expire r n (Nat.le_refl now), serviceClaim_expire r n (Nat.le_refl now)]
    exact h
  | policy => exact h

/-- Hosts and services agree in every run. -/
theorem run_consistent {c : Crypto} {legal : Registry → Op → Prop} {t₀ t : Nat}
    {es : List (Op × Answer)} {r : Registry} (run : (machine c legal).Run .default t₀ es r t) :
    r.Consistent t :=
  run.invariant (I := fun r t => r.Consistent t) (by intro n h s hh; simp [default] at hh)
    fun _ _ o hc hle _ => hc.step o hle

/-- First come, first served. In every run, a live claim keeps its key and its end until the end of
its key lease, unless an update under its public key is committed; and a host and a service that are
both live at one name have one public key. -/
theorem ownership (c : Crypto) (legal : Registry → Op → Prop) {t₀ t₁ now t₂ t : Nat}
    {es₁ es₂ : List (Op × Answer)} {r₁ r₂ : Registry}
    (run₁ : (machine c legal).Run .default t₀ es₁ r₁ t₁) (hnow : t₁ ≤ now)
    (run₂ : (machine c legal).Run r₁ now es₂ r₂ t₂) (ht : t₂ ≤ t) :
    (∀ n k e, r₁.claim n now = some (k, e) → t < e → (∀ ev ∈ es₂, appliedBy k ev = false) →
      r₂.claim n t = some (k, e) ∧ r₂.key n t = some k) ∧ r₂.Consistent t := by
  refine ⟨fun n k e hclaim he hno => ?_, ?_⟩
  · have hkept : (∀ ev ∈ es₂, appliedBy k ev = false) → t₂ < e → r₂.claim n t₂ = some (k, e) := by
      refine run₂.history
        (I := fun es r t => (∀ ev ∈ es, appliedBy k ev = false) → t < e → r.claim n t = some (k, e))
        (fun _ _ => hclaim) fun es r t o _ ih hle _ hno he => ?_
      refine claim_step o (ih (fun ev hev => hno ev (List.mem_append_left _ hev))
        (Nat.lt_of_le_of_lt hle he)) hle he (hno _ ?_)
      exact List.mem_append_right _ (List.mem_singleton.2 rfl)
    have := claim_later (hkept hno (Nat.lt_of_le_of_lt ht he)) ht he
    exact ⟨this, by rw [key_eq_claim, this]; rfl⟩
  · have hc₁ := (run_consistent run₁).later hnow
    have hc₂ : r₂.Consistent t₂ := run₂.invariant (I := fun r t => r.Consistent t) hc₁
      fun _ _ o hc hle _ => hc.step o hle
    exact hc₂.later ht

/-- Cryptographic functions that accept everything. -/
def toyCrypto : Crypto where
  validPublic _ _ := true
  verify _ _ _ _ := true
  fingerprint _ := zeros 32
  sha1 _ := zeros 20

/-- A host name of the default zone. -/
def printer : Name := ⟨ascii "printer" :: defaultZone.labels, by decide⟩

/-- An update of one host that carries no records, signed with the key of equal octets. -/
def hostUpdate (digest octet : UInt8) : Update where
  digest := ⟨List.replicate 32 digest, rfl⟩
  id := 0
  zone := defaultZone
  host := printer
  key := ⟨0, 3, 15, List.replicate 32 octet⟩
  addresses := []
  services := []
  lease := 3600
  keyLease := 3600
  extendedLease := true

/-- An update that every store accepts. -/
def accepted (now : Nat) (u : Update) : Op := .apply now u (fun _ => true) 0 fun _ => .ok ()

/-- The theorem applied to a rival: a host stays with the first key when another key claims its
name. -/
theorem ownership_rival :
    let r₁ := (default.step toyCrypto (accepted 0 (hostUpdate 0 1))).1
    (r₁.step toyCrypto (accepted 1000 (hostUpdate 1 2))).1.claim printer 2000 =
      some (⟨0, 3, 15, List.replicate 32 1⟩, 3600000) := by
  intro r₁
  have run₁ : (machine toyCrypto fun _ _ => True).Run default 0
      [(accepted 0 (hostUpdate 0 1), (default.step toyCrypto (accepted 0 (hostUpdate 0 1))).2)]
      r₁ 0 :=
    .snoc _ .nil (Nat.le_refl 0) trivial
  have run₂ : (machine toyCrypto fun _ _ => True).Run r₁ 500
      [(accepted 1000 (hostUpdate 1 2), (r₁.step toyCrypto (accepted 1000 (hostUpdate 1 2))).2)]
      (r₁.step toyCrypto (accepted 1000 (hostUpdate 1 2))).1 1000 :=
    .snoc _ .nil (by decide) trivial
  refine ((ownership toyCrypto _ run₁ (Nat.zero_le 500) run₂ (t := 2000) (by decide)).1 printer _ _
    (by decide +kernel) (by decide) fun ev hev => ?_).1
  rw [List.mem_singleton.1 hev]
  decide +kernel

end Registry

end SnacMachine.Srp
