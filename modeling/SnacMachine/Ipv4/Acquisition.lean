import SnacMachine.Ipv4.Leases
import SnacMachine.Ipv4.Bounds

/-!
# How an address is acquired

In every run of the DHCPv4 client in which no call fails: an address comes into use only after it
was asked for three times by ARP, with a second between the messages and two seconds after the last
one, and no other host claimed it in the meantime (`Client.acquired`). The host always takes the
configuration of the client (`Client.synchronized`).
-/

namespace SnacMachine.Ipv4

open Ip Nat64

namespace Client

variable {c c' : Client} {e : Event} {w : World} {now : Nat} {mac : Mac} {A : Ipv4Addr} {p : Probe}
  {start xid delay t₀ t : Nat} {es : List (Event × Except Fault (List Output))} {α : Type}
  {acked : Lease → Prop} {r : Except Fault (List Output)}

/-! ## Interruptions -/

/-- Whether another host claims an address with a message, or probes for it. -/
def Conflicts (mac : Mac) (A : Ipv4Addr) (a : Arp) : Prop :=
  a.senderMac ≠ mac ∧ (a.sender = A ∨ isUnspecified a.sender = true ∧ a.target = A)

/-- Whether an event puts an end to the probes for an address. -/
inductive Interrupts (mac : Mac) (A : Ipv4Addr) (e : Event) : Prop
  | restore (lease : Lease) (op : e.op = .restore lease)
  | stop (op : e.op = .stop)
  | down (op : e.op = .setLink false)
  | conflict (frame : Bytes) (a : Arp) (op : e.op = .receiveArp frame)
      (parse : Arp.parse frame = .ok a)
      (conflict : Conflicts mac A a)

/-- Clients that probe for no address. -/
def idle : Act.Frame World := .keeps fun w => w.client.probe = none

/-- A change that starts no probe leaves a client without one. -/
theorem idle_change {f : Client → Client} (h : ∀ c, c.probe = none → (f c).probe = none) :
    Act.Changes idle (change f) := fun w hw => h w.client hw

/-- Drawing a number starts no probe. -/
theorem idle_sample (max : Nat) : Act.Changes idle (sample max) := fun _ hw => hw

/-- Sending a message starts no probe. -/
theorem idle_send (kind : UInt8) (now : Nat) : Act.Changes idle (send kind now) := fun _ hw => hw

/-- A new transaction starts no probe. -/
theorem idle_transaction (now : Nat) : Act.Changes idle (transaction now) :=
  .bind (idle_sample _) fun _ => idle_change fun _ h => h

/-- After a restart there is no probe. -/
theorem restart_probe (now : Nat) (w : World) : (restart now w).2.client.probe = none := by
  have h := idle_transaction now { w with client := w.client.cleared }
  exact h rfl

/-- A restart starts no probe. -/
theorem idle_restart (now : Nat) : Act.Changes idle (restart now) := fun w _ => restart_probe now w

/-- Declining an address starts no probe. -/
theorem idle_decline (lease : Lease) (now : Nat) : Act.Changes idle (decline lease now) := by
  unfold decline
  refine .bind (idle_change fun _ h => h) fun _ => .bind (idle_send 4 now) fun out =>
    .bind (idle_restart now) fun _ => .bind (idle_change fun _ h => h) fun _ => .pure _

/-- A conflict ends the probe, whatever comes of it. -/
theorem giveUp_probe (a : Arp) (now : Nat) (w : World) :
    (giveUp a now w).2.client.probe = none := by
  unfold giveUp
  cases hlease : w.client.forfeit a with
  | some lease =>
    simp only [Act.bind_run, look, change, hlease]
    exact idle_decline lease now _ rfl
  | none =>
    simp only [Act.bind_run, look, change, hlease]
    rfl

/-- Restoring a lease ends the probe of another address. The client starts anew first, and then only
the lease that was given is selected. -/
theorem restore_probe (lease : Lease) (now : Nat) (w : World) :
    (restore lease now w).2.client.probe = none := by
  unfold restore
  rw [Act.bind_run]
  have hrestart := restart_probe now w
  cases hrun : restart now w with
  | mk r t =>
    rw [hrun] at hrestart
    cases r with
    | error e => exact hrestart
    | ok u =>
      have hrest : Act.Changes idle (if lease.expires > now then
          change fun c => { c with selected := some lease, state := .reboot, next := now }
          else pure () : Call Unit) := .ite (idle_change fun _ h => h) (.pure _)
      exact hrest t hrestart

/-- The address that a client uses is one of a host. It is that of its lease, which was read from a
message, or a link-local one. -/
theorem Sound.unicast (hc : c.Sound) {conf : Configuration} (hconf : c.configuration = some conf) :
    unicast conf.address = true := by
  unfold configuration at hconf
  cases hactive : c.active with
  | some l =>
    rw [hactive] at hconf
    cases hconf
    exact (hc.active l hactive).1.fit.address
  | none =>
    rw [hactive] at hconf
    obtain ⟨x, hx, rfl⟩ := hc.linkLocal conf hconf
    exact (linkLocalAddress_fit hx).2.1

/-- A host that claims an address puts an end to the probes for it. The address that is probed for
is not one in use, so that the message is taken as a conflict of the candidate, which is given
up. -/
theorem receiveArp_probe (hc : w.client.Sound) {frame : Bytes} {a : Arp}
    (hp : w.client.probe = some p) (hsent : p.sent < 4) (hparse : Arp.parse frame = .ok a)
    (hconflict : Conflicts w.client.mac p.address a) :
    (receiveArp frame now w).2.client.probe = none := by
  obtain ⟨hmac, hclaim⟩ := hconflict
  have hrun : w.client.state ≠ .stopped := by
    intro h
    rw [(hc.stopped h).1] at hp
    cases hp
  have hcandidate : w.client.candidate a = true := by
    unfold candidate
    rw [hp]
    show (decide (p.sent < 4) &&
      (a.sender == p.address || (isUnspecified a.sender && a.target == p.address))) = true
    rw [decide_eq_true hsent]
    rcases hclaim with h | ⟨h1, h2⟩
    · rw [h]
      simp
    · rw [h1, h2]
      simp
  have hclaimed : w.client.claimed a = none := by
    unfold claimed
    cases hconf : w.client.configuration with
    | none => rfl
    | some conf =>
      have huni := hc.unicast hconf
      have hne : a.sender ≠ conf.address := by
        intro heq
        rcases hclaim with h | ⟨h1, -⟩
        · refine (hc.probe p hp).fresh hsent ?_
          unfold Client.address
          rw [hconf, ← h, heq]
          rfl
        · rw [heq, isUnspecified_of_unicast huni] at h1
          cases h1
      rw [Option.filter_some, if_neg]
      · rfl
      · exact fun h => hne (eq_of_beq h)
  have heq : receiveArp frame now w = giveUp a now w := by
    simp only [receiveArp, Act.bind_run, look, hparse, hclaimed, hmac, hrun, hcandidate,
      or_self, if_false, if_true]
  rw [heq]
  exact giveUp_probe a now w

/-- A call that returns is done with its computation. -/
theorem after_fst (c : Client) (e : Event) :
    (c.after e).1 = (perform e.now e.op ⟨c, e.draw, 0⟩).2.client := rfl

/-- A change of the result is no change of the client. -/
theorem map_client {m : Call α} {β : Type} (f : α → β) (w : World) :
    ((f <$> m) w).2.client = (m w).2.client := by
  rw [map_eq_pure_bind, Act.bind_run]
  cases m w with
  | mk r t => cases r <;> rfl

/-- Stopping ends the probe. The client is cleared at the end, whether or not a message to the
server is sent before. -/
theorem stop_probe (hc : w.client.Sound) : (stop now w).2.client.probe = none := by
  have hclear : ∀ (out : List Output) (t : World), Act.Outcome (do
      change fun c => { c with
        state := .stopped, active := none, linkLocal := none, selected := none, probe := none,
          offers := [] }
      pure out : Call (List Output)) t (fun _ t => t.client.probe = none) fun _ t =>
        t.client.probe = none :=
    fun out t => rfl
  have h :
      Act.Outcome (stop now) w (fun _ t => t.client.probe = none) fun _ t =>
      t.client.probe = none := by
    unfold stop
    refine outcome_look_bind.2 (Act.Outcome.branch (fun hactive => ?_) fun _ => hclear [] w)
    obtain ⟨l, hl⟩ := Option.isSome_iff_exists.1 hactive
    rw [map_eq_pure_bind, bind_assoc]
    refine Act.Outcome.bind ((send_outcome fun _ => ⟨l, hl⟩).mono (fun _ _ h => h) fun _ _ h =>
      h.elim) ?_
    rintro out t rfl
    rw [pure_bind]
    exact hclear [out] _
  exact h.always

/-- What interrupts a probe ends it. By the cases of `Interrupts`: a lease that is restored, a stop,
a link that goes down and a conflict. -/
theorem Interrupts.probe (h : Interrupts c.mac p.address e) (hc : c.Sound) (hp : c.probe = some p)
    (hsent : p.sent < 4) : (c.after e).1.probe = none := by
  rw [after_fst]
  cases h with
  | restore lease op =>
    rw [op]
    refine Eq.trans (congrArg Client.probe (map_client _ _)) ?_
    exact restore_probe lease e.now _
  | stop op =>
    rw [op]
    exact stop_probe hc
  | down op =>
    rw [op]
    refine Eq.trans (congrArg Client.probe (map_client _ _)) ?_
    simp only [setLink, Act.bind_run, look, Bool.false_eq_true, false_and, if_false, if_true]
    rfl
  | conflict frame a op parse conflict =>
    rw [op]
    exact receiveArp_probe hc hp hsent parse conflict

/-! ## Probes -/

/-- A call that asks for an address. -/
structure Asks (mac : Mac) (A : Ipv4Addr) (e : Event) (out : List Output) : Prop where
  poll : e.op = .poll
  out : askAll mac unspecified A ∈ out

/-- An address was asked for some times, and is asked for again at a moment; nothing put an end to
it in the meantime. -/
def Asked (mac : Mac) (A : Ipv4Addr) :
    Nat → List (Event × Except Fault (List Output)) → Nat → Prop
  | 0, _, _ => True
  | k + 1, es, next =>
    ∃ before e out after n, es = before ++ (e, .ok out) :: after ∧ Asks mac A e out ∧
      satAdd e.now (if k + 1 < 3 then 1000 else 2000) ≤ next ∧
      (∀ e' ∈ after, ¬ Interrupts mac A e'.1) ∧ n ≤ e.now ∧ Asked mac A k before n

/-- An event that does not interrupt leaves the probes that were sent. The event is one more after
the last of them. -/
theorem Asked.snoc {k next : Nat} (h : Asked mac A k es next) {r : Except Fault (List Output)}
    (hquiet : ¬ Interrupts mac A e) : Asked mac A k (es ++ [(e, r)]) next := by
  cases k with
  | zero => trivial
  | succ k =>
    obtain ⟨before, e', out, after, n, rfl, hasks, hnext, hafter, hrest⟩ := h
    refine ⟨before, e', out, after ++ [(e, r)], n, by rw [List.append_assoc]; rfl,
      hasks, hnext, ?_, hrest⟩
    intro e'' he''
    rcases List.mem_append.1 he'' with h | h
    · exact hafter e'' h
    · rw [List.mem_singleton.1 h]
      exact hquiet

/-- One more message for an address. -/
theorem Asked.again {n next : Nat} (h : Asked mac A p.sent es n) (hsent : p.sent < 3)
    (hdue : n ≤ e.now) {out arps : List Output} (hpoll : e.op = .poll) (hsub : arps ⊆ out)
    (harps : arps = [askAll mac (if p.sent < 3 then unspecified else A) A])
    (hnext : satAdd e.now (if p.sent + 1 < 3 then 1000 else 2000) ≤ next) :
    Asked mac A (p.sent + 1) (es ++ [(e, .ok out)]) next := by
  refine ⟨es, e, out, [], n, rfl, ⟨hpoll, hsub ?_⟩, hnext, fun _ h =>
    absurd h List.not_mem_nil, hdue, h⟩
  rw [harps, if_pos hsent]
  exact List.mem_singleton_self _

/-- What is known of the address that a client probes for. -/
def Traced (mac : Mac) (es : List (Event × Except Fault (List Output))) (c : Client) : Prop :=
  ∀ p, c.probe = some p → p.sent < 4 → Asked mac p.address p.sent es p.next

/-- A step that keeps the probe keeps its trace. A probe that a calm step starts has sent nothing
yet, so nothing is to be traced. -/
theorem Traced.calm {acked : Lease → Prop} (h : Traced mac es c) (hcalm : Calm acked c c') :
    Traced mac es c' := by
  intro p hp hsent
  rcases hcalm.probe with h' | h' | ⟨p', hp', hzero⟩
  · rw [h'] at hp
    cases hp
  · rw [h'] at hp
    exact h p hp hsent
  · rw [hp'] at hp
    cases hp
    rw [hzero]
    trivial

/-- The passing of time does not interrupt a probe. -/
theorem not_interrupts_poll (hpoll : e.op = .poll) : ¬ Interrupts mac A e := by
  intro h
  cases h with
  | restore _ op => rw [hpoll] at op; cases op
  | stop op => rw [hpoll] at op; cases op
  | down op => rw [hpoll] at op; cases op
  | conflict _ _ op => rw [hpoll] at op; cases op

/-- The ARP messages of a poll keep every probe traced: a tick that asks once more adds its message
to those that were sent before, and a tick that uses the address ends the probe. -/
theorem Traced.probes (h : Traced c.mac es c) {out arps : List Output} (hpoll : e.op = .poll)
    (hsub : arps ⊆ out) (hprobes : Probes e.now c arps c') :
    Traced c.mac (es ++ [(e, .ok out)]) c' := by
  intro p' hp' hsent'
  cases hprobes with
  | none => exact (h p' hp' hsent').snoc (not_interrupts_poll hpoll)
  | @tick _ p hp due ticked =>
    cases ticked with
    | again delay few =>
      cases hp'
      refine (h p hp (by omega)).again (by omega) due hpoll hsub rfl ?_
      rw [if_pos few]
      exact satAdd_mono (Nat.le_add_right _ _)
    | last third =>
      cases hp'
      refine (h p hp (by omega)).again (by omega) due hpoll hsub rfl ?_
      rw [if_neg (by omega)]
    | use fourth =>
      exfalso
      unfold adopt at hp'
      split at hp'
      · cases hp'
        exact absurd hsent' (by show ¬ p.sent + 1 < 4; omega)
      · cases hp'
        exact absurd hsent' (by show ¬ p.sent + 1 < 4; omega)
    | done fifth => cases hp'

/-- Probing does not change the address of the hardware. -/
theorem Probes.own {arps : List Output} (h : Probes now c arps c') : c'.mac = c.mac := by
  cases h with
  | none => rfl
  | tick hp due ticked => exact ticked.mac

/-- No call changes the address of the hardware. -/
theorem Called.own {r : Except Fault (List Output)} (h : Called c e c' r) : c'.mac = c.mac := by
  cases h with
  | calm other h => exact h.mac
  | polled poll h => rw [h.after.mac, h.probes.own, h.before.mac]
  | faltered poll h =>
    rw [h.after.mac, ← h.before.mac]
    rcases h.probes with ⟨arps, hprobes⟩ | ⟨p, hp, hfew, rfl⟩
    · exact hprobes.own
    · rfl

/-- In every run the client has the address that it was made with. -/
theorem Run.own (run : machine.Run (new mac start xid delay) t₀ es c t) : c.mac = mac := by
  refine run.history (I := fun _ c _ => c.mac = mac) rfl ?_
  intro es c t e run hmac _ _
  exact (after_spec (Run.sound run) e).2.own.trans hmac

/-- In a run in which no call fails, every probe is traced to the messages that asked for it. By
induction on the run, with the kinds of calls that `after_spec` lists: a calm one leaves the probe
alone or begins another, and a tick asks once more. -/
theorem Run.traced (run : machine.Run (new mac start xid delay) t₀ es c t)
    (hfine : ∀ e ∈ es, ∃ out, e.2 = .ok out) : Traced mac es c := by
  have h : (∀ e ∈ es, ∃ out, e.2 = .ok out) → Traced mac es c := by
    refine run.history (I := fun es c _ => (∀ e ∈ es, ∃ out, e.2 = .ok out) → Traced mac es c) ?_ ?_
    · intro _ p hp
      cases hp
    · intro es c t e run hes _ _ hfine
      have htraced := hes fun e' he' => hfine e' (List.mem_append_left _ he')
      obtain ⟨out, hout⟩ := hfine _ (List.mem_append_right _ List.mem_cons_self)
      have hmac := Run.own run
      have hc := Run.sound run
      have hcalled := (after_spec hc e).2
      show Traced mac (es ++ [(e, (c.after e).2)]) (c.after e).1
      have hout : (c.after e).2 = .ok out := hout
      rw [hout] at hcalled ⊢
      cases hcalled with
      | calm other h =>
        intro p hp hsent
        rcases h.probe with h' | h' | ⟨p', hp', hzero⟩
        · rw [h'] at hp
          cases hp
        · rw [h'] at hp
          refine (htraced p hp hsent).snoc fun hinterrupts => ?_
          rw [← hmac] at hinterrupts
          have hnone := hinterrupts.probe hc hp hsent
          rw [h', hp] at hnone
          cases hnone
        · rw [hp'] at hp
          cases hp
          rw [hzero]
          trivial
      | polled poll h =>
        refine Traced.calm ?_ h.after
        have h₁ := htraced.calm h.before
        rw [← hmac, ← h.before.mac] at h₁ ⊢
        exact h₁.probes poll h.out h.probes
  exact h hfine

/-! ## Addresses -/

/-- An address was asked for three times, with a second between the messages and two seconds after
the last one, and nothing put an end to it since the first one. -/
def AskedThrice (mac : Mac) (A : Ipv4Addr)
    (es : List (Event × Except Fault (List Output))) (now : Nat) :
    Prop :=
  ∃ before e₁ out₁ first e₂ out₂ second e₃ out₃ third,
    es = before ++ (e₁, .ok out₁) :: first ++ (e₂, .ok out₂) :: second ++ (e₃, .ok out₃) :: third ∧
    Asks mac A e₁ out₁ ∧ Asks mac A e₂ out₂ ∧ Asks mac A e₃ out₃ ∧
    satAdd e₁.now 1000 ≤ e₂.now ∧ satAdd e₂.now 1000 ≤ e₃.now ∧ satAdd e₃.now 2000 ≤ now ∧
    ∀ e ∈ first ++ second ++ third, ¬ Interrupts mac A e.1

/-- With the third probe answered by nobody in time, the address was asked for three times. The
three steps of `Asked` are taken apart, from the last to the first. -/
theorem Asked.thrice {next : Nat} (h : Asked mac A 3 es next) (hdue : next ≤ now) :
    AskedThrice mac A es now := by
  obtain ⟨_, e₃, out₃, third, n₃, rfl, asks₃, wait₃, quiet₃, due₃, _, e₂, out₂,
    second, n₂, rfl, asks₂, wait₂, quiet₂, due₂, before, e₁, out₁, first, n₁, rfl,
      asks₁, wait₁, quiet₁, -, -⟩ := h
  refine ⟨before, e₁, out₁, first, e₂, out₂, second, e₃, out₃, third, rfl, asks₁, asks₂, asks₃,
    Nat.le_trans wait₁ due₂, Nat.le_trans wait₂ due₃, Nat.le_trans wait₃ hdue, ?_⟩
  intro e he
  rcases List.mem_append.1 he with he | he
  · rcases List.mem_append.1 he with he | he
    · exact quiet₁ e he
    · exact quiet₂ e he
  · exact quiet₃ e he

/-- A calm step takes no address. -/
theorem Calm.takes (h : Calm acked c c') (huse : c'.address = some A) : c.address = some A := by
  rcases h.address with h | h
  · rw [h] at huse
    cases huse
  · exact h ▸ huse

/-- An address comes into use with the fourth message for it. Without a tick of the probe the
address stays what it was. -/
theorem Probes.takes (hc : c.Sound) {arps : List Output} (h : Probes now c arps c')
    (hnew : c.address ≠ some A) (huse : c'.address = some A) :
    ∃ p, c.probe = some p ∧ p.sent = 3 ∧ p.address = A ∧ p.next ≤ now ∧
    arps = [askAll c.mac A A] := by
  cases h with
  | none => exact absurd huse hnew
  | @tick _ p hp due ticked =>
    rcases ticked.address hc hp with h | ⟨hthird, h⟩
    · exact absurd (h ▸ huse) hnew
    · rw [h] at huse
      cases huse
      exact ⟨p, hp, hthird, rfl, due, by rw [if_neg (by omega)]⟩

/-- An address comes into use in a poll. Every other call is calm, and in a poll it is the fourth
message of the probe that takes the address. -/
theorem Called.takes (h : Called c e c' r) (hnew : c.address ≠ some A)
    (huse : c'.address = some A) : e.op = .poll ∧
      (∃ c₁ p, Calm nothing c c₁ ∧ c₁.probe = some p ∧ p.sent = 3 ∧ p.address = A ∧
       p.next ≤ e.now) ∧
      ∀ out, r = .ok out → askAll c.mac A A ∈ out := by
  cases h with
  | calm other h => exact absurd (h.takes huse) hnew
  | @polled c₁ c₂ out arps poll h =>
    obtain ⟨p, hp, hthird, haddress, due, rfl⟩ :=
      h.probes.takes h.before.sound (fun h' => hnew (h.before.takes h')) (h.after.takes huse)
    refine ⟨poll, ⟨c₁, p, h.before, hp, hthird, haddress, due⟩, fun out' hout => ?_⟩
    cases hout
    rw [← h.before.mac]
    exact h.out (List.mem_singleton_self _)
  | @faltered c₁ c₂ fault poll h =>
    have huse := h.after.takes huse
    have hnew : c₁.address ≠ some A := fun h' => hnew (h.before.takes h')
    rcases h.probes with ⟨arps, hprobes⟩ | ⟨p, hp, hfew, rfl⟩
    · obtain ⟨p, hp, hthird, haddress, due, -⟩ := hprobes.takes h.before.sound hnew huse
      exact ⟨poll, ⟨c₁, p, h.before, hp, hthird, haddress, due⟩, fun out hout => by cases hout⟩
    · exact absurd huse hnew

/-- In every run in which no call fails, an address comes into use only in a poll, after it was
asked for three times and while nothing spoke against it; and the poll announces it. -/
theorem acquired (run : machine.Run (new mac start xid delay) t₀ es c t)
    (hfine : ∀ e ∈ es, ∃ out, e.2 = .ok out) (e : Event) (hnew : c.address ≠ some A)
    (huse : (c.after e).1.address = some A) :
    e.op = .poll ∧ AskedThrice mac A es e.now ∧ ∀ out, (c.after e).2 = .ok out →
    askAll mac A A ∈ out := by
  have hc := Run.sound run
  obtain ⟨hpoll, ⟨c₁, p, hcalm, hp, hthird, rfl, due⟩, hout⟩ := (after_spec hc e).2.takes hnew huse
  have hasked := (Run.traced run hfine).calm hcalm p hp (by omega)
  rw [hthird] at hasked
  rw [Run.own run] at hout
  exact ⟨hpoll, hasked.thrice due, hout⟩

/-! ## The host -/

/-- The address of the host, if it is not the one of a configuration. Reference:
`Driver::sync_ipv4_configuration` (`runtime.rs:636`). -/
def syncAddress (conf : Configuration) (h : Ipv4) : Except IoError Unit × Ipv4 :=
  if h.address ≠ some (conf.address, conf.length) then h.configure conf.address conf.length none
  else (.ok (), h)

/-- The routes of the host, if they are not those of a configuration. Reference:
`Driver::sync_ipv4_configuration` (`runtime.rs:639`). -/
def syncRoutes (conf : Configuration) (h : Ipv4) : Except IoError Unit × Ipv4 :=
  if h.routes ≠ conf.routes then h.setRoutes conf.routes else (.ok (), h)

/-- Reference: `Driver::sync_ipv4_configuration` (`runtime.rs:631`). -/
def syncConfiguration (c : Client) (h : Ipv4) : Except IoError Unit × Ipv4 :=
  match c.configuration with
  | none => (.ok (), h.unavailable)
  | some conf =>
    match syncAddress conf h with
    | (.error e, h) => (.error e, h)
    | (.ok _, h) => syncRoutes conf h

/-- The host takes the configuration of a client. It is that of the lease, which fits since it was
read, or of a link-local address. -/
theorem Sound.fit (hc : c.Sound) {conf : Configuration} (h : c.configuration = some conf) :
    conf.Fit := by
  unfold configuration at h
  cases hactive : c.active with
  | some l =>
    rw [hactive] at h
    cases h
    exact (hc.active l hactive).1.fit
  | none =>
    rw [hactive] at h
    obtain ⟨x, hx, rfl⟩ := hc.linkLocal conf h
    obtain ⟨-, hunicast, hhost⟩ := linkLocalAddress_fit hx
    exact ⟨hunicast, (by decide : 16 ≤ 32), hhost, Nat.zero_le _, rfl⟩

/-- Setting the address of a lease that fits succeeds. -/
theorem syncAddress_spec {conf : Configuration} (hfit : conf.Fit) (h : Ipv4) :
    ∃ h', syncAddress conf h = (.ok (), h') ∧ h'.address = some (conf.address, conf.length) := by
  unfold syncAddress
  split
  · exact ⟨_, hfit.configure_eq h, rfl⟩
  · next haddr => exact ⟨h, rfl, Decidable.not_not.1 haddr⟩

/-- Setting the routes of a lease that fits succeeds, and keeps the address. -/
theorem syncRoutes_spec {conf : Configuration} (hfit : conf.Fit) {h : Ipv4}
    (haddr : h.address = some (conf.address, conf.length)) :
    ∃ h', syncRoutes conf h = (.ok (), h') ∧ h'.address = some (conf.address, conf.length) ∧
      h'.routes = conf.routes := by
  unfold syncRoutes
  split
  · exact ⟨_, hfit.setRoutes_eq haddr, haddr, rfl⟩
  · next hroutes => exact ⟨h, rfl, haddr, Decidable.not_not.1 hroutes⟩

/-- In every run the host takes the configuration of the client, whatever it had before: after that
its address and its routes are those of the configuration, and it has none when there is no
configuration. -/
theorem synchronized (run : machine.Run (new mac start xid delay) t₀ es c t) (h : Ipv4) :
    ∃ h', c.syncConfiguration h = (.ok (), h') ∧
      h'.address = c.configuration.map (fun conf => (conf.address, conf.length)) ∧
      h'.routes = (c.configuration.map Configuration.routes).getD [] := by
  unfold syncConfiguration
  cases hconf : c.configuration with
  | none => exact ⟨_, rfl, rfl, rfl⟩
  | some conf =>
    have hfit := (Run.sound run).fit hconf
    obtain ⟨h₁, hsync, haddr⟩ := syncAddress_spec hfit h
    obtain ⟨h₂, hroutes, haddr, hrest⟩ := syncRoutes_spec hfit haddr
    refine ⟨h₂, ?_, haddr, hrest⟩
    dsimp only
    rw [hsync]
    exact hroutes

/-! ## A lease -/

/-- A reply of the server at the gateway, which leases an address for an hour. -/
def leaseReply (kind : UInt8) : Bytes :=
  let b := [2, 1, 6, 0] ++ toBe 4 1 ++ List.replicate 8 0 ++ hostIp.1 ++
    List.replicate 8 0 ++ hostMac.1 ++
    List.replicate 202 0 ++ [99, 130, 83, 99] ++ [53, 1, kind, 54, 4] ++ neighborIp.1 ++
    [51, 4, 0, 0, 14, 16, 1, 4, 255, 255, 255, 0, 3, 4] ++ neighborIp.1 ++ [255]
  ((encode neighborIp broadcast 17 64 ([0, 67, 0, 68] ++ toBe 2 (b.length + 8) ++
    [0, 0] ++ b)).toOption).getD []

/-- A call with a random source that returns zeros. -/
def at_ (now : Nat) (op : Op) : Event := ⟨op, now, fun _ _ => .ok 0⟩

/-- The client takes the offer of a server, and asks for its address three times. The seven calls
are made one after the other, and the states between them are evaluated. -/
theorem leased : ∃ es c, machine.Run (new hostMac 0 1 0) 0 es c 5000 ∧ es.length = 7 ∧
    (∀ e ∈ es, e.2.isOk = true) ∧ c.address = none ∧ (c.after (at_ 7000 .poll)).2.isOk = true ∧
    (c.after (at_ 7000 .poll)).1.active.isSome = true ∧
    (c.after (at_ 7000 .poll)).1.configuration.map (fun conf => (conf.address, conf.length)) =
      some (hostIp, 24) := by
  have start : machine.Run (new hostMac 0 1 0) 0 [] (new hostMac 0 1 0) 0 := .nil
  have discovered := start.snoc (at_ 1000 .poll) (by decide) trivial
  have offered := discovered.snoc (at_ 1500 (.receive (leaseReply 2))) (by decide) trivial
  have requested := offered.snoc (at_ 2500 .poll) (by decide) trivial
  have acknowledged := requested.snoc (at_ 3000 (.receive (leaseReply 5))) (by decide) trivial
  have once := acknowledged.snoc (at_ 3000 .poll) (by decide) trivial
  have twice := once.snoc (at_ 4000 .poll) (by decide) trivial
  have thrice := twice.snoc (at_ 5000 .poll) (by decide) trivial
  exact ⟨_, _, thrice, by decide +kernel⟩

/-- What succeeds has a result. -/
theorem exists_of_isOk {ε β : Type} {r : Except ε β} (h : r.isOk = true) : ∃ b, r = .ok b := by
  cases r with
  | ok b => exact ⟨b, rfl⟩
  | error e => cases h

/-- The theorem applied to a run in which a lease is obtained from a server: the lease in use was
granted in that run. -/
theorem lawful_leased : ∃ es c l, machine.Run (new hostMac 0 1 0) 0 es c 7000 ∧ es.length = 8 ∧
    (∀ e ∈ es, e.2 ≠ .error .panic) ∧ c.active = some l ∧ l.Sound ∧
    Granted hostMac 0 1 0 0 es l := by
  obtain ⟨es, c, run, hlength, -, -, -, hactive, -⟩ := leased
  have run := run.snoc (at_ 7000 .poll) (by decide) trivial
  obtain ⟨l, hl⟩ := Option.isSome_iff_exists.1 hactive
  obtain ⟨hfine, hheld, -⟩ := lawful run
  refine ⟨_, _, l, run, ?_, hfine, hl, hheld l (.inl hl)⟩
  rw [List.length_append, hlength]
  rfl

/-- The theorem applied to a run in which an address is asked for three times and then announced. -/
theorem acquired_leased : ∃ es c out, machine.Run (new hostMac 0 1 0) 0 es c 5000 ∧ es.length = 7 ∧
    AskedThrice hostMac hostIp es 7000 ∧ (c.after (at_ 7000 .poll)).2 = .ok out ∧
    askAll hostMac hostIp hostIp ∈ out := by
  obtain ⟨es, c, run, hlength, hfine, hnew, hok, -, hconf⟩ := leased
  have hnew : c.address ≠ some hostIp := by
    rw [hnew]
    exact (Option.some_ne_none _).symm
  have huse : (c.after (at_ 7000 .poll)).1.address = some hostIp := by
    obtain ⟨conf, hconf, heq⟩ := Option.map_eq_some_iff.1 hconf
    unfold address
    rw [hconf]
    exact congrArg some (congrArg Prod.fst heq)
  obtain ⟨out, hok⟩ := exists_of_isOk hok
  obtain ⟨-, hasked, hout⟩ :=
    acquired run (fun e he => exists_of_isOk (hfine e he)) (at_ 7000 .poll) hnew huse
  exact ⟨es, c, out, run, hlength, hasked, hok, hout out hok⟩

/-- The theorem applied to a client with that lease, whose address is handed to the host. -/
theorem synchronized_leased : ∃ es c h, machine.Run (new hostMac 0 1 0) 0 es c 7000 ∧
    c.syncConfiguration (.new hostMac) = (.ok (), h) ∧ h.address = some (hostIp, 24) := by
  obtain ⟨es, c, run, -, -, -, -, -, hconf⟩ := leased
  have run := run.snoc (at_ 7000 .poll) (by decide) trivial
  obtain ⟨h, hsync, haddr, -⟩ := synchronized run (.new hostMac)
  exact ⟨_, _, h, run, hsync, haddr.trans hconf⟩

end Client

end SnacMachine.Ipv4
