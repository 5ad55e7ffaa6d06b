import SnacMachine.Router.Election

/-!
# What a tick sends

Of the packets that a tick returns for the infrastructure link, those that are advertisements are
encoded snapshots of the router (`Sends`): all others are messages of another kind.
-/

namespace SnacMachine.Router

open Ip Nat64 Act

/-- No packet for the infrastructure link is an advertisement. -/
def Mute (out : List Tx) : Prop := ∀ tx ∈ out, tx.link = .ail → Silent tx.packet

/-- Nothing sent is mute. -/
theorem mute_nil : Mute [] := nofun

/-- Mute packets together are mute. -/
theorem Mute.append {out out' : List Tx} (h : Mute out) (h' : Mute out') : Mute (out ++ out') := by
  intro tx htx
  rcases List.mem_append.1 htx with htx | htx
  · exact h tx htx
  · exact h' tx htx

/-- One packet without an advertisement is mute. -/
theorem mute_singleton {tx : Tx} (h : Silent tx.packet) : Mute [tx] := by
  intro tx' htx' _
  rw [List.mem_singleton.1 htx']
  exact h

/-- Mute lists of packets together are mute. -/
theorem mute_flatten {outs : List (List Tx)} (h : ∀ out ∈ outs, Mute out) : Mute outs.flatten := by
  intro tx htx
  obtain ⟨out, hout, hmem⟩ := List.mem_flatten.1 htx
  exact h out hout tx hmem

/-- The computation returns no advertisement for the infrastructure link. -/
def Hushed (m : Io (List Tx)) : Prop := Ensures (fun _ => True) (fun out _ => Mute out) m

/-- Returning mute packets is hushed. -/
theorem Hushed.pure {out : List Tx} (h : Mute out) : Hushed (pure out) :=
  Ensures.pure (Q := fun out _ => Mute out) fun _ _ => h

/-- What ends hushed is hushed, whatever comes before. -/
theorem Hushed.bind {α : Type} {m : Io α} {f : α → Io (List Tx)} (h : ∀ a, Hushed (f a)) :
    Hushed (m >>= f) := fun _ b t _ hrun => by
  obtain ⟨a, u, -, hf⟩ := bind_eq_ok hrun
  exact h a u b t trivial hf

/-- A choice between hushed computations is hushed. -/
theorem Hushed.ite {p : Prop} [Decidable p] {m m' : Io (List Tx)} (hm : Hushed m)
    (hm' : Hushed m') :
    Hushed (if p then m else m') := Ensures.branch (fun _ => hm) fun _ => hm'

/-- A choice is hushed if its second branch is, and the first one if that is. -/
theorem Hushed.branch {p : Prop} [Decidable p] {m m' : Io (List Tx)} (hm' : Hushed m')
    (hm : Hushed m' → Hushed m) : Hushed (if p then m else m') := .ite (hm hm') hm'

section Messages

variable (now : Nat)

/-- A packet of another protocol is no advertisement: its transport is UDP, and an advertisement is
an ICMPv6 message. -/
theorem silent_udpPacket {source destination : Ipv6Addr} {sport dport : Nat} {body b : Bytes}
    (h : Dhcp.udpPacket source destination sport dport body = .ok b) : Silent b := by
  unfold Dhcp.udpPacket at h
  split at h
  · cases h
  · rw [Silent, Option.eq_none_iff_forall_ne_some]
    rintro ⟨e, nd⟩ hr
    obtain ⟨he, hnd, -⟩ := readRa_eq_some.1 hr
    rw [envelope_ipv6Packet h] at he
    cases he
    obtain ⟨t, ht, hp, -⟩ := decodeNd_eq_ok hnd
    rw [transport, transportLoop] at ht
    cases ht
    exact absurd (show (17 : UInt8) = 58 from hp) (by decide)

/-- A probe of a neighbor is no advertisement. It is a solicitation of type 135, whether the address
of the neighbor is known or not. -/
theorem probe_silent (key : RouterKey) :
    Ensures (fun _ => True) (fun tx _ => Silent tx.packet) (probe key now) := by
  intro w tx t _ hrun
  simp only [probe, look_bind_run] at hrun
  cases hn : w.router.neighbors.get key with
  | none =>
    rw [hn] at hrun
    cases hrun
  | some n =>
    rw [hn] at hrun
    obtain ⟨-, w', -, hrun⟩ := bind_eq_ok hrun
    simp only [look_bind_run] at hrun
    cases hp : icmpPacket (w'.router.identity.linkLocal key.1)
        (if n.mac.isSome = true then key.2 else key.2.solicitedNode) 255
        ([135, 0, 0, 0, 0, 0, 0, 0] ++ key.2.1 ++ w'.router.macOption key.1 1) with
    | error err =>
      rw [hp] at hrun
      cases hrun
    | ok packet =>
      rw [hp] at hrun
      cases hrun
      exact silent_icmpPacket hp (show (135 : UInt8) ≠ 134 by decide)

/-- An error message is no advertisement. -/
theorem icmpError_hushed (l : Link) (e : Envelope) (kind code : UInt8) (value : Nat)
    (hkind : kind ≠ 134) : Hushed (icmpError l e kind code value now) := by
  refine .bind fun r => .ite (.pure mute_nil) (.ite (.pure mute_nil) ?_)
  split
  · exact .pure mute_nil
  · refine .bind fun _ => ?_
    split
    · exact .pure mute_nil
    · next packet hpacket => exact .pure (mute_singleton (silent_icmpPacket hpacket hkind))

/-- A tick of a neighbor sends no advertisement. -/
theorem tickNeighbor_hushed (key : RouterKey) : Hushed (tickNeighbor now key) := by
  refine .bind fun r => ?_
  split
  · exact .pure mute_nil
  · refine .ite (.bind fun _ => ?_) (.bind fun _ => ?_)
    · split
      · split
        · exact icmpError_hushed now _ _ _ _ _ (by decide)
        · exact .pure mute_nil
      · exact .pure mute_nil
    · exact Ensures.bind (probe_silent now key) fun tx => .pure fun _ htx => mute_singleton htx

/-- A tick of all neighbors sends no advertisement. -/
theorem tickNeighbors_hushed : Hushed (tickNeighbors now) := by
  refine .bind fun _ => .bind fun r => ?_
  exact Ensures.bind (.mapM fun key _ => tickNeighbor_hushed now key) fun outs =>
    .pure fun _ houts => mute_flatten houts

/-- A tick of the address checks sends no advertisement. -/
theorem tickDad_hushed : Hushed (tickDad now) := by
  refine .bind fun r => .bind fun _ => .pure fun tx htx _ => ?_
  obtain ⟨e, -, he⟩ := List.mem_filterMap.1 htx
  unfold dadProbe at he
  split at he
  · split at he
    · next packet hpacket =>
      cases he
      exact silent_icmpPacket hpacket (show (135 : UInt8) ≠ 134 by decide)
    · cases he
  · cases he

/-- Discovery sends solicitations, and no advertisement. -/
theorem discover_hushed (l : Link) : Hushed (discover l now) := by
  refine .bind fun r => .ite (.ite (.bind fun _ => .bind fun _ => .pure mute_nil) (.ite ?_ ?_))
    (.pure mute_nil)
  · split
    · next packet hpacket =>
      exact .pure (mute_singleton (silent_icmpPacket hpacket (show (133 : UInt8) ≠ 134 by decide)))
    · exact Ensures.fail _
  · exact .pure mute_nil

/-- The packets are no advertisements. -/
def SilentAll (m : Io (List Bytes)) : Prop :=
  Ensures (fun _ => True) (fun out _ => ∀ b ∈ out, Silent b) m

/-- What ends with silent packets does so whatever comes before. -/
theorem SilentAll.bind {α : Type} {m : Io α} {f : α → Io (List Bytes)} (h : ∀ a, SilentAll (f a)) :
    SilentAll (m >>= f) := fun _ b t _ hrun => by
  obtain ⟨a, u, -, hf⟩ := bind_eq_ok hrun
  exact h a u b t trivial hf

/-- A step that may be left out does not matter for what is returned. -/
theorem SilentAll.when {p : Prop} [Decidable p] {m : Io Unit} {k : Unit → Io (List Bytes)}
    (h : ∀ a, SilentAll (k a)) : SilentAll (if p then m >>= k else k ()) :=
  Ensures.branch (fun _ => SilentAll.bind h) fun _ => h ()

/-- A release is a DHCP message, if there is one to be sent: the packet is made by `udpPacket` in
the only branch that sends. -/
theorem pollRelease_silent (source : Ipv6Addr) (duid : Bytes) (i : Nat) :
    SilentAll (PdClient.pollRelease now source duid i) := by
  refine .bind fun r => ?_
  split
  · exact .pure fun _ _ => nofun
  · refine Ensures.branch (fun _ => .pure fun _ _ => nofun) fun _ => ?_
    dsimp only
    split
    · exact Ensures.fail _
    · next packet hpacket =>
      refine SilentAll.bind fun _ => SilentAll.bind fun _ => .pure fun _ _ b hb => ?_
      rw [List.mem_singleton.1 hb]
      exact silent_udpPacket hpacket

/-- All that the prefix delegation sends are DHCP messages. The releases come first, then the
message of the exchange that is under way; each is a UDP packet, so none is an advertisement. -/
theorem poll_silent (source : Ipv6Addr) (duid : Bytes) :
    SilentAll (PdClient.poll now source duid) := by
  have hreleases : SilentAll (PdClient.pollReleases now source duid) := by
    refine .bind fun r => ?_
    refine Ensures.bind (.mapM fun i _ => pollRelease_silent now source duid i) fun outs => ?_
    intro w out w' houts hrun
    obtain ⟨-, w₁, -, hrun⟩ := bind_eq_ok hrun
    cases hrun
    intro b hb
    obtain ⟨out, hout, hmem⟩ := List.mem_flatten.1 hb
    exact houts out hout b hmem
  refine .bind fun r => .when fun _ => .bind fun r => .when fun _ => ?_
  refine Ensures.bind hreleases fun out => Ensures.bind (Q := fun _ _ => ∀ b ∈ out, Silent b)
    (fun _ _ _ h _ => h) fun r => ?_
  dsimp only
  split
  · exact .pure fun _ h => h
  · refine Ensures.branch (fun _ => .pure fun _ h => h) fun _ => ?_
    split
    · exact Ensures.fail _
    · next packet hpacket =>
      intro w out' w' hout hrun
      obtain ⟨interval, w₁, -, hrun⟩ := bind_eq_ok hrun
      obtain ⟨-, w₂, -, hrun⟩ := bind_eq_ok hrun
      cases hrun
      intro b hb
      rcases List.mem_append.1 hb with hb | hb
      · exact hout b hb
      · rw [List.mem_singleton.1 hb]
        exact silent_udpPacket hpacket

/-- A tick of the prefix delegation sends no advertisement. -/
theorem tickPd_hushed : Hushed (tickPd now) := by
  refine .bind fun r => .ite ?_ (.pure mute_nil)
  have hpoll : Hushed (do
      let out ← PdClient.poll now (r.identity.linkLocal .ail) r.identity.duid.1
      pure (out.map (Tx.mk .ail))) := by
    refine Ensures.bind (poll_silent now _ _) fun out => .pure fun _ hout tx htx _ => ?_
    obtain ⟨b, hb, rfl⟩ := List.mem_map.1 htx
    exact hout b hb
  exact .ite (.bind fun _ => hpoll) hpoll

end Messages

/-! ## Advertisements -/

/-- The fields that may still change after the last advertisement of a tick. -/
def lateFields : List Field := [.pd, .finalRas, .lifecycle, .services, .nat64]

/-- A packet is an encoded snapshot of the router, as far as it has not changed since. -/
def Announced (now : Nat) (w : World) (packet : Bytes) : Prop :=
  ∃ r : Router, (r.snapshot .ail now).encode = .ok packet ∧ ∀ a ∉ lateFields, Agree r w.router a

/-- What is sent to the infrastructure link: advertisements of the router, and other messages. -/
def Sends (now : Nat) (out : List Tx) (w : World) : Prop :=
  ∀ tx ∈ out, tx.link = .ail → Silent tx.packet ∨ Announced now w tx.packet

/-- Mute packets announce nothing, and so nothing wrong. -/
theorem Mute.sends {now : Nat} {out : List Tx} {w : World} (h : Mute out) : Sends now out w :=
  fun tx htx hl => .inl (h tx htx hl)

/-- Packets that each announce what the router holds. -/
theorem Sends.append {now : Nat} {out out' : List Tx} {w : World} (h : Sends now out w)
    (h' : Sends now out' w) : Sends now (out ++ out') w := by
  intro tx htx
  rcases List.mem_append.1 htx with htx | htx
  · exact h tx htx
  · exact h' tx htx

/-- What was announced stays true if the router agrees in the fields it depends on. -/
theorem Sends.later {now : Nat} {out : List Tx} {w w' : World} (h : Sends now out w)
    (hw : ∀ a ∉ lateFields, Agree w.router w'.router a) : Sends now out w' := by
  intro tx htx hl
  rcases h tx htx hl with hs | ⟨r, henc, hr⟩
  · exact .inl hs
  · exact .inr ⟨r, henc, fun a ha => (hr a ha).trans (hw a ha)⟩

section Advertising

variable (now : Nat)

/-- A snapshot is of its link. -/
theorem snapshot_link (r : Router) (l : Link) : (r.snapshot l now).link = l := rfl

/-- On the infrastructure link an advertisement has no services, so that encoding it changes
nothing. -/
theorem encodeServices_ail (r r' : Router) :
    encodeServices (r.snapshot .ail now) now r' = ((r.snapshot .ail now).encode, r') := by
  rw [encodeServices, if_pos (snapshot_link now r .ail)]

/-- An encoded snapshot of the router announces what the router holds. When the snapshot does not
fit, the router degrades and the smaller snapshot is encoded, which is again one of the router. -/
theorem encodeOrDegrade_announced (snap : Advertisement) :
    Ensures (fun w => w.router.snapshot .ail now = snap) (fun packet w => Announced now w packet)
      (encodeOrDegrade .ail snap now) := by
  rintro w packet w' rfl hrun
  simp only [encodeOrDegrade, look_bind_run, encodeServices_ail, update_bind_run] at hrun
  cases henc : (w.router.snapshot .ail now).encode with
  | ok b =>
    rw [henc] at hrun
    cases hrun
    exact ⟨w.router, henc, fun a _ => .refl _ a⟩
  | error err =>
    rw [henc] at hrun
    cases err with
    | capacity =>
      obtain ⟨-, w₁, -, hrun⟩ := bind_eq_ok hrun
      simp only [look_bind_run, update_bind_run] at hrun
      cases henc' : (w₁.router.snapshot .ail now).encode with
      | ok b =>
        rw [henc'] at hrun
        cases hrun
        exact ⟨w₁.router, henc', fun a _ => .refl _ a⟩
      | error err =>
        rw [henc'] at hrun
        cases hrun
    | truncated | invalid | unsupported => cases hrun

/-- An advertisement of the infrastructure link is an encoded snapshot of the router. What is sent
is made by `encodeOrDegrade`, whether or not the announced content has changed, and a router without
prefixes and routes sends nothing. -/
theorem advertise_sends : Ensures (fun _ => True) (Sends now) (advertise .ail now) := by
  intro w out w' _ hrun
  simp only [advertise, look_bind_run] at hrun
  split at hrun
  · have hrest : Ensures (fun _ => True) (Sends now) (do
        let snap := (← look).snapshot .ail now
        if Link.ail = Link.stub ∨ snap.pios ≠ [] ∨ snap.rios ≠ [] then
          let packet ← encodeOrDegrade .ail snap now
          pure [⟨.ail, packet⟩]
        else pure [] : Io (List Tx)) := by
      intro w out w' _ hrun
      simp only [look_bind_run] at hrun
      split at hrun
      · obtain ⟨packet, w₁, henc, hpure⟩ := bind_eq_ok hrun
        cases hpure
        intro tx htx _
        rw [List.mem_singleton.1 htx]
        exact .inr (encodeOrDegrade_announced now _ w packet _ rfl henc)
      · cases hrun
        exact mute_nil.sends
    split at hrun
    · obtain ⟨-, w₁, -, hrun⟩ := bind_eq_ok hrun
      exact hrest w₁ out w' trivial hrun
    · exact hrest w out w' trivial hrun
  · cases hrun
    exact mute_nil.sends

/-- A tick of the infrastructure link sends what the router holds. The solicitation is no
advertisement, and the advertisements are those of `advertise`. -/
theorem tickLink_sends : Ensures (fun _ => True) (Sends now) (tickLink now .ail) := by
  intro w out w' _ hrun
  simp only [tickLink, look_bind_run] at hrun
  split at hrun
  · cases hrun
    exact mute_nil.sends
  · obtain ⟨-, w₁, -, hrun⟩ := bind_eq_ok hrun
    obtain ⟨solicit, w₂, hsolicit, hrun⟩ := bind_eq_ok hrun
    obtain ⟨-, w₃, -, hrun⟩ := bind_eq_ok hrun
    obtain ⟨ads, w₄, hads, hrun⟩ := bind_eq_ok hrun
    cases hrun
    exact (discover_hushed now .ail w₁ solicit w₂ trivial hsolicit).sends.append
      (advertise_sends now w₃ ads _ trivial hads)

/-- The turn of the stub link sends to the stub link. Its solicitation is no advertisement, and its
advertisements go to that link, so nothing is announced to the infrastructure link. -/
theorem tickLink_stub : Hushed (tickLink now .stub) := by
  have hlink {out : List Tx} (h : ∀ tx ∈ out, tx.link = .stub) : Mute out := fun tx htx hl => by
    rw [h tx htx] at hl
    cases hl
  refine .bind fun r => .ite (.pure mute_nil) (.bind fun _ => ?_)
  refine Ensures.bind (discover_hushed now .stub) fun solicit => ?_
  intro w out w' hsolicit hrun
  obtain ⟨-, w₁, -, hrun⟩ := bind_eq_ok hrun
  obtain ⟨ads, w₂, hads, hrun⟩ := bind_eq_ok hrun
  cases hrun
  refine Mute.append hsolicit (hlink ?_)
  have hadvertise : Ensures (fun _ => True) (fun out _ => ∀ tx ∈ out, tx.link = .stub)
      (advertise .stub now) := by
    refine .bind (Q := fun _ _ => True) (fun _ _ _ _ _ => trivial) fun r =>
      .branch (fun _ => ?_) fun _ => .pure fun _ _ => nofun
    have hrest : Ensures (fun _ => True) (fun out _ => ∀ tx ∈ out, tx.link = .stub) (do
        let snap := (← look).snapshot .stub now
        if Link.stub = Link.stub ∨ snap.pios ≠ [] ∨ snap.rios ≠ [] then
          let packet ← encodeOrDegrade .stub snap now
          pure [⟨.stub, packet⟩]
        else pure [] : Io (List Tx)) := by
      refine .bind (Q := fun _ _ => True) (fun _ _ _ _ _ => trivial) fun r => ?_
      refine .branch (fun _ => .bind (Q := fun _ _ => True) (fun _ _ _ _ _ => trivial) fun packet =>
        ?_) fun _ => .pure fun _ _ => nofun
      refine .pure fun _ _ tx htx => ?_
      rw [List.mem_singleton.1 htx]
    exact .branch (fun _ => .bind (Q := fun _ _ => True) (fun _ _ _ _ _ => trivial) fun _ => hrest)
      fun _ => hrest
  exact hadvertise w₁ ads _ trivial hads

/-- The last advertisements of the infrastructure link are encoded snapshots of the router. Nothing
is sent on a link that is down or has no advertisement to take back. -/
theorem stoppingLink_sends : Ensures (fun _ => True) (Sends now) (stoppingLink now .ail) := by
  intro w out w' _ hrun
  simp only [stoppingLink, look_bind_run] at hrun
  split at hrun
  · cases hrun
    exact mute_nil.sends
  · split at hrun
    · split at hrun
      · cases hrun
        exact mute_nil.sends
      · simp only [encodeServices_ail, update_bind_run] at hrun
        cases henc : (w.router.snapshot .ail now).encode with
        | error err =>
          rw [henc] at hrun
          cases hrun
        | ok packet =>
          rw [henc] at hrun
          cases hrun
          intro tx htx _
          rw [List.mem_singleton.1 htx]
          exact .inr ⟨w.router, henc, fun a _ => .refl _ a⟩
    · cases hrun
      exact mute_nil.sends

/-- The last advertisements of the stub link are none of the infrastructure link, since they are
sent to their own link. -/
theorem stoppingLink_stub : Hushed (stoppingLink now .stub) := by
  intro w out w' _ hrun
  simp only [stoppingLink, look_bind_run] at hrun
  split at hrun
  · cases hrun
    exact mute_nil
  · split at hrun
    · rw [if_neg (fun h => by cases h.1)] at hrun
      cases henc : encodeServices (w.router.snapshot .stub now) now w.router with
      | mk encoded r =>
        rw [henc] at hrun
        cases encoded with
        | error err => cases hrun
        | ok packet =>
          cases hrun
          intro tx htx hl
          rw [List.mem_singleton.1 htx] at hl
          cases hl
    · cases hrun
      exact mute_nil

/-- A tick of a router that stops sends what the router holds. The turn of the stub link comes
second and changes nothing that a snapshot of the infrastructure link reads. -/
theorem stoppingTick_sends : Ensures (fun _ => True) (Sends now) (stoppingTick now) := by
  intro w out w' _ hrun
  obtain ⟨ail, w₁, hail, hrun⟩ := bind_eq_ok hrun
  obtain ⟨stub, w₂, hstub, hrun⟩ := bind_eq_ok hrun
  have hsub : stoppingFields ⊆ lateFields := by decide
  have hkeep : ∀ a ∉ lateFields, Agree w₁.router w₂.router a := fun a ha => by
    have := stoppingLink_only .stub now w₁ a fun hm => ha (hsub hm)
    rwa [hstub] at this
  have hsends : Sends now (ail ++ stub) w₂ :=
    ((stoppingLink_sends now w ail w₁ trivial hail).later hkeep).append
      (stoppingLink_stub now w₁ stub w₂ trivial hstub).sends
  simp only [look_bind_run] at hrun
  split at hrun
  · cases hrun
    refine hsends.later fun a ha => ?_
    exact agree_of_restore rfl ha
  · cases hrun
    exact hsends

/-- The part of a tick before the links sends no advertisement: what it sends are probes for
addresses and probes of neighbors. -/
theorem tickState_hushed : Hushed (tickState now) := by
  refine .bind fun r => .branch ?_ fun hrest => .bind fun _ => .bind fun _ => .bind fun _ => hrest
  refine .bind fun _ => .bind fun _ => .bind fun _ => .bind fun r => ?_
  intro w out w' _ hrun
  obtain ⟨dad, w₁, hdad, hrun⟩ := bind_eq_ok hrun
  obtain ⟨-, w₂, -, hrun⟩ := bind_eq_ok hrun
  obtain ⟨-, w₃, -, hrun⟩ := bind_eq_ok hrun
  obtain ⟨r', w₄, -, hrun⟩ := bind_eq_ok hrun
  obtain ⟨probes, w₅, hprobes, hrun⟩ := bind_eq_ok hrun
  obtain ⟨-, w₆, -, hrun⟩ := bind_eq_ok hrun
  have hout := (tickDad_hushed now w dad w₁ trivial hdad).append
    (tickNeighbors_hushed now w₄ probes w₅ trivial hprobes)
  have hlast (w : World) (h : (do update (expire now); pure (dad ++ probes) : Io (List Tx)) w =
      (.ok out, w')) : Mute out := by
    cases h
    exact hout
  simp only [look_bind_run] at hrun
  split at hrun
  · obtain ⟨-, w₇, -, hrun⟩ := bind_eq_ok hrun
    exact hlast w₇ hrun
  · exact hlast w₆ hrun

/-- What a tick sends to the infrastructure link: nothing that is an advertisement before the turn
of that link, and then an encoded snapshot. -/
theorem tick_sends : Ensures (fun _ => True) (Sends now) (tick now) := by
  intro w out w' _ hrun
  simp only [tick, update_bind_run, look_bind_run] at hrun
  split at hrun
  · cases hrun
    exact mute_nil.sends
  · split at hrun
    · exact stoppingTick_sends now _ out w' trivial hrun
    · obtain ⟨first, w₁, hfirst, hrun⟩ := bind_eq_ok hrun
      obtain ⟨stub, w₂, hstub, hrun⟩ := bind_eq_ok hrun
      obtain ⟨ail, w₃, hail, hrun⟩ := bind_eq_ok hrun
      obtain ⟨pd, w₄, hpd, hrun⟩ := bind_eq_ok hrun
      cases hrun
      have hkeep : ∀ a ∉ lateFields, Agree w₃.router w'.router a := fun a ha => by
        have := tickPd_only now w₃ a fun hm => ha ((by decide : [Field.pd] ⊆ lateFields) hm)
        rwa [hpd] at this
      have hquiet := (tickState_hushed now _ first w₁ trivial hfirst).append
        (tickLink_stub now w₁ stub w₂ trivial hstub)
      refine (hquiet.sends.append ?_).append (tickPd_hushed now w₃ pd _ trivial hpd).sends
      exact (tickLink_sends now w₂ ail w₃ trivial hail).later hkeep

end Advertising

end SnacMachine.Router
