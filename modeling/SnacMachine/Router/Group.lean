import Mathlib.Data.Set.Finite.Lemmas
import SnacMachine.Router.Sending

/-!
# A group of routers on one link

Any number of routers of this program, each with a prefix of its own, tick, send, receive one
another's advertisements and are called by their drivers, in any order. No link goes down and no
router changes its attachment (`Quiet`, and the condition of `Step.tick`).
-/

namespace SnacMachine.Router

open Ip Nat64 Act

/-! ## What a router says of its prefix -/

/-- Addresses are numbers of 128 bits. -/
theorem Ipv6Addr.ofValue_congr {a b : Nat} (h : a % 2 ^ 128 = b % 2 ^ 128) :
    Ipv6Addr.ofValue a = Ipv6Addr.ofValue b :=
  Subtype.ext (toBe_congr (by rw [show 256 ^ 16 = 2 ^ 128 by norm_num]; exact h))

/-- The prefixes of a site are well formed. -/
theorem Identity.normal_prefix (i : Identity) (l : Link) : (i.prefix_ l).Normal := by
  have hlen : ¬ (64 : UInt8) > 128 := by decide
  have h64 : 128 - (64 : UInt8).toNat = 64 := rfl
  simp only [Prefix.Normal, Identity.prefix_, Prefix.new, if_neg hlen, Ipv6Addr.value_ofValue, h64]
  generalize (i.site.address.value ||| _ <<< 64) / 2 ^ 64 = a
  refine congrArg (fun x => some (Prefix.mk x 64)) (Ipv6Addr.ofValue_congr ?_)
  have hmod : a * 2 ^ 64 % 2 ^ 128 = a % 2 ^ 64 * 2 ^ 64 :=
    Nat.mul_mod_mul_right (2 ^ 64) a (2 ^ 64)
  rw [hmod, Nat.mul_div_cancel _ (Nat.two_pow_pos 64)]
  have hlt := Nat.mod_lt a (Nat.two_pow_pos 64)
  exact Nat.mod_eq_of_lt (by omega)

/-- A suitable prefix that the router names is its own. A prefix that is still preferred comes from
the router's own ones, since those that it withdraws have no preferred lifetime, and a suitable
prefix has one. -/
theorem suitable_own {r : Router} {now : Nat} {p x : Pio} (hp : p ∈ (r.snapshot .ail now).pios)
    (hx : Pio.decode p.encode = some x) (hsuit : x.suitable = true) : x.prefix_ = r.own := by
  rw [Pio.decode_encode] at hx
  obtain ⟨q, hq, rfl⟩ := Option.map_eq_some_iff.1 hx
  have hpos : p.preferred ≠ 0 := by
    intro h0
    simp [Pio.suitable, h0] at hsuit
  have hmem : p ∈ r.ownPios .ail now := by
    simp only [snapshot] at hp
    split at hp
    · obtain ⟨hmem, -⟩ := List.mem_filter.1 hp
      obtain ⟨y, -, rfl⟩ := List.mem_map.1 hmem
      exact absurd rfl hpos
    · simp only [pios, reduceCtorEq, if_false] at hp
      rcases List.mem_append.1 hp with hp | hp
      · exact hp
      · obtain ⟨y, -, rfl⟩ := List.mem_map.1 hp
        exact absurd rfl hpos
  have hpfx : p.prefix_ = r.own := by
    simp only [ownPios] at hmem
    split at hmem
    · rw [List.mem_singleton.1 hmem]
      rfl
    · rw [List.mem_singleton.1 hmem]
      rfl
    · split at hmem
      · rw [List.mem_singleton.1 hmem] at hpos
        exact absurd rfl hpos
      · cases hmem
    · cases hmem
  have hnormal : Prefix.new p.prefix_.address p.prefix_.length = some p.prefix_ := by
    rw [hpfx]
    exact Identity.normal_prefix r.identity .ail
  rw [hnormal] at hq
  exact (Option.some.inj hq).symm.trans hpfx

/-- The flag of this kind of router is set, whatever the other flags are. -/
theorem snac_flag (mo : UInt8) : (2 ||| (mo &&& 0xc0)) &&& 2 ≠ 0 :=
  octets_forall (p := fun mo => (2 ||| (mo &&& 0xc0)) &&& 2 ≠ 0) (by decide +kernel) mo

/-- An encoded snapshot speaks of the router's own prefix. It is read back as it was written
(`Advertisement.decode_encode`), and the only prefix option of it that suits is the one of the
router. -/
theorem Announced.speaks {now : Nat} {w : World} {packet : Bytes} (h : Announced now w packet) :
    Speaks w.router.own packet := by
  obtain ⟨r, henc, hr⟩ := h
  have hown : w.router.own = r.own := own_congr (hr .site (by decide))
  obtain ⟨e', nd', he', -, hdst, hnd', hkind', hflag, hopts⟩ := Advertisement.decode_encode rfl henc
  intro e nd hread
  obtain ⟨he, hnd, -⟩ := readRa_eq_some.1 hread
  rw [he'] at he
  cases he
  rw [hnd'] at hnd
  cases hnd
  refine ⟨hdst, ?_, ?_⟩
  · rw [hflag]
    exact snac_flag _
  · rintro p ⟨o, ho, x, hx, hsuit, rfl⟩
    rw [hown]
    have hmem : x ∈ (r.snapshot .ail now).ownOptions.filterMap Pio.decode := by
      rw [hopts] at ho
      obtain ⟨b, hb, rfl⟩ := List.mem_map.1 ho
      exact List.mem_filterMap.2 ⟨b, hb, hx⟩
    rw [Advertisement.filterMap_pio] at hmem
    obtain ⟨p, hp, hpx⟩ := List.mem_filterMap.1 hmem
    exact suitable_own (Advertisement.mem_sortedPios.1 hp) hpx hsuit

/-! ## Calls that say nothing of a prefix -/

section Calm

variable {now : Nat}

/-- What does not change the state of the infrastructure link is calm. -/
theorem keeps_calm {α : Type} {m : Io α} {S : List Field} (h : Changes (only S) m)
    (hS : Field.link .ail .state ∉ S) : Changes calm m :=
  h.keeps calm_reads fun a ha => by
    rw [List.mem_singleton.1 ha]
    exact hS

/-- Rotating a link is calm. -/
theorem rotateLink_calm : ∀ l, Changes calm (rotateLink l now)
  | .ail => .bind (keeps_calm (retirePrefix_only now .ail) (by decide)) fun _ =>
      .bind (updateState_calm nofun) fun _ => keeps_calm (changed_only .ail now) (by decide)
  | .stub => keeps_calm (rotateLink_only now .stub) (by decide)

/-- Rotating the site prefix is calm. The steps write the retired prefixes and NAT64, and each link
is rotated by `rotateLink`. -/
theorem rotateUla_calm : Changes calm (rotateUla now) := by
  refine .bind (keeps_calm (S := [.retiredUlas]) (update_only fun r a ha => ?_) (by decide))
    fun _ =>
    .bind (keeps_calm (S := []) look_only (by decide)) fun r => ?_
  · exact agree_of_restore rfl ha
  refine .ite (.fail _) (.bind (keeps_calm (S := []) (fill_only _) (by decide)) fun _ =>
    .ite (.fail _) ?_)
  refine .bind (keeps_calm (S := [.nat64]) (update_only fun r a ha => ?_) (by decide)) fun _ =>
    .bind (.lift _) fun _ => .bind (rotateLink_calm .ail) fun _ =>
    .bind (rotateLink_calm .stub) fun _ =>
    .bind (keeps_calm (S := [.site]) (update_only fun r a ha => ?_) (by decide)) fun _ =>
    keeps_calm (PdClient.refresh_only now 6) (by decide)
  · exact agree_of_restore rfl ha
  · exact agree_of_restore rfl ha

/-- Finishing the choice of a site prefix is calm. -/
theorem finishAttachment_calm : Changes calm (finishAttachment now) := by
  refine .bind (keeps_calm (S := []) look_only (by decide)) fun r => .ite (.bind
    (keeps_calm (S := [.attachment, .identity]) (update_only fun r a ha => ?_) (by decide)) fun _ =>
    .ite rotateUla_calm (.pure _)) (.pure _)
  exact agree_of_restore rfl ha

/-- Looking is calm. -/
theorem look_calm : Changes calm look := keeps_calm (S := []) look_only (by decide)

/-- The part of a tick before the links is calm. Step by step, as the source has it; most of the
steps write only parts of the router that the relation does not read. -/
theorem tickState_calm : Changes calm (tickState now) := by
  refine .bind look_calm fun r => .branch ?_ fun _ hrest =>
    .bind finishAttachment_calm fun _ => .bind ?_ fun _ =>
    .bind (keeps_calm (PdClient.advance_only now) (by decide)) fun _ => hrest
  · refine .bind ?_ fun _ => .bind ?_ fun _ =>
      .bind (keeps_calm (syncPd_only now) (by decide)) fun _ =>
      .bind look_calm fun r => .bind (keeps_calm (tickDad_only now) (by decide)) fun dad =>
      .bind (.forM fun l _ => ?_) fun _ => .bind ?_ fun _ => .bind look_calm fun r =>
      .bind (keeps_calm (tickNeighbors_only now) (by decide)) fun out =>
      .bind (keeps_calm (reconcileExports_only now _) (by decide)) fun _ => .bind look_calm fun r =>
      .when (keeps_calm (changed_only .stub now) (by decide)) fun _ =>
      .bind (keeps_calm (expire_only now) (by decide)) fun _ => .pure _
    · refine keeps_calm (S := [.withdrawals, .advertisedRoutes]) (update_only fun r a ha =>
        ?_) (by decide)
      exact agree_of_restore rfl ha
    · refine keeps_calm (S := [.pdHints]) (update_only fun r a ha => ?_) (by decide)
      exact agree_of_restore rfl ha
    · exact keeps_calm (enableReady_only now _ l) (by simp)
    · refine keeps_calm (S := [.lifecycle]) (update_only fun r a ha => ?_) (by decide)
      exact agree_of_restore rfl ha
  · refine keeps_calm (S := [.retiredUlas]) (update_only fun r a ha => ?_) (by decide)
    exact agree_of_restore rfl ha

/-- A tick of a link is calm: advertising begins with discovery, and ends when a lower prefix is
heard. -/
theorem tickLink_calm : ∀ l, Changes calm (tickLink now l)
  | .stub => keeps_calm (tickLink_only .stub now) (by decide)
  | .ail => by
    refine .bind look_calm fun r => .ite (.pure _) (.bind ?_ fun _ => .bind ?_ fun _ =>
      .bind (keeps_calm (beginOnLink_only .ail now) (by decide)) fun _ =>
      .bind (keeps_calm (advertise_only .ail now) (by decide)) fun _ => .pure _)
    · exact .bind look_calm fun r => .ite (.bind (updateState_calm nofun) fun _ =>
        keeps_calm (changed_only .ail now) (by decide)) (.pure _)
    · refine .bind look_calm fun r => .ite (.ite (.bind (updateState_calm nofun) fun _ =>
        .bind (keeps_calm (enable_only .ail now) (by decide)) fun _ => .pure _) (.ite ?_ (.pure _)))
        (.pure _)
      split
      · exact .pure _
      · exact .fail _

/-- A tick of a router that stops is calm. -/
theorem stoppingTick_calm : Changes calm (stoppingTick now) := by
  refine .bind (keeps_calm (stoppingLink_only .ail now) (by decide)) fun _ =>
    .bind (keeps_calm (stoppingLink_only .stub now) (by decide)) fun _ => .bind look_calm fun r =>
    .when (keeps_calm (S := [.lifecycle]) (update_only fun r a ha => ?_) (by decide)) fun _ =>
    .pure _
  exact agree_of_restore rfl ha

/-- The passage of time makes no router deprecate its prefix. -/
theorem tick_calm : Changes calm (tick now) := by
  refine .bind (keeps_calm (S := [.nat64]) (update_only fun r a ha => ?_) (by decide)) fun _ =>
    .bind look_calm fun r => .ite (.pure _) (.ite stoppingTick_calm (.bind tickState_calm fun _ =>
    .bind (tickLink_calm .stub) fun _ => .bind (tickLink_calm .ail) fun _ =>
    .bind (keeps_calm (tickPd_only now) (by decide)) fun _ => .pure _))
  exact agree_of_restore rfl ha

/-- An advertisement that was sent says that a prefix is deprecated only if it is. -/
theorem advertisedState_deprecating {nd : Nd} {own : Prefix} {s : AilState}
    (h : advertisedState nd own s = .deprecating) : s = .deprecating := by
  cases s <;> simp_all [advertisedState]

/-- Reporting a packet as sent is calm. A failure is noted in the address that was probed, a
solicitation is counted, and an advertisement changes the state of its own link. -/
theorem transmitted_calm (tx : Tx) (success : Bool) :
    Changes calm (transmitted tx now success) := by
  refine .ite (keeps_calm (S := [.owned]) (update_only fun r a ha => ?_) (by decide)) ?_
  · exact unsent_agree now tx r fun h => ha (by simp [h])
  split
  · exact .pure _
  · split
    · exact .pure _
    · refine .when ?_ fun _ =>
        .ite (sentRa_changes tx.link now calm_reads _ ?_ fun own => ?_) (.pure _)
      · refine keeps_calm (updateLink_only (P := [.discovery]) fun s p hp => ?_) (by simp)
        unfold solicited
        split
        · cases p <;> first | rfl | exact absurd (by decide) hp
        · exact .refl s p
      · cases tx.link <;> decide
      · intro w hd
        cases hl : tx.link with
        | ail =>
          rw [hl] at hd
          exact advertisedState_deprecating hd
        | stub =>
          rw [hl] at hd
          exact hd

end Calm

/-! ## Quiet calls -/

/-- The calls that are no advertisement on the infrastructure link, no change of a link and no
change of attachment. -/
def Quiet : Call → Prop
  | .receive link packet => link = .stub ∨ Silent packet
  | .receiveFrame link kind frame =>
    ∀ e, envelope kind frame = .ok e → link = .stub ∨ Silent e.packet
  | .setLink _ _ | .configureAttachment _ _ | .tick => False
  | _ => True

section Calls

variable {now : Nat}

/-- Finding the neighbor of a packet to be sent changes no more than forwarding does. -/
theorem resolveOutput_only (tx : Tx) : Changes (only forwardFields) (resolveOutput tx now) := by
  refine .bind (reap_only now) fun _ => .bind look_only fun r => ?_
  split
  · exact .pure _
  · refine .ite (.pure _) ?_
    split
    · exact .pure _
    · exact .ite (.pure _) ((queueNeighbor_only now _ _).widen (by decide))

/-- The fields that quiet calls change, apart from packets and reports. -/
def quietFields : List Field :=
  .ailFrames :: .services :: .nat64 :: (forwardFields ++ addressFields ++ shutdownFields)

/-- A frame that reads none of these is kept if packets and reports keep it. One case for each quiet
call, with the frame of the function behind it. -/
theorem quiet_changes {R : Frame World} {F : List Field} (hR : Reads R F)
    (hF : ∀ a ∈ F, a ∉ quietFields)
    (hreceive : ∀ l packet, l = .stub ∨ Silent packet → Changes R (receive l packet now))
    (hsent : ∀ tx success, Changes R (transmitted tx now success)) {c : Call} (h : Quiet c) :
    Changes R (c.act now) := by
  have hkeep {α : Type} {m : Io α} {S : List Field} (h : Changes (only S) m)
      (hS : S ⊆ quietFields) : Changes R m := h.keeps hR fun a ha hm => hF a ha (hS hm)
  cases c with
  | receive l packet => exact hreceive l packet h
  | receiveFrame l kind frame =>
    refine .bind (hkeep (S := []) look_only nofun) fun r => .ite (.when (hkeep (S := [.ailFrames])
      (update_only fun r a ha => ?_) (by decide)) fun _ => .pure _) ?_
    · exact agree_of_restore rfl ha
    split
    · exact .pure _
    · next e he =>
      refine .ite (.pure _) ?_
      split
      · exact .pure _
      · exact .ite (hkeep (icmpError_only now _ _ _ _ _) (by decide)) (.pure _)
      · split
        · exact .pure _
        · exact .ite (hreceive _ _ (h e he)) (.ite (.pure _)
            (hkeep (forward_only now _ _) (by decide)))
  | resolveOutput tx => exact hkeep (resolveOutput_only tx) (by decide)
  | start => exact hkeep (start_only now) (by decide)
  | tick => exact h.elim
  | transmitted tx success => exact .bind (hsent tx success) fun _ => .pure _
  | setLink l up => exact h.elim
  | serviceInventory resolvers ipv4 translator =>
    exact .bind (hkeep (serviceInventory_only now _ _ _) (by decide)) fun _ => .pure _
  | prepareServiceAddresses => exact hkeep (prepareServiceAddresses_only now) (by decide)
  | configureNat64 policy =>
    exact .bind (hkeep (configureNat64_only now policy) (by decide)) fun _ => .pure _
  | configureAttachment policy configured => exact h.elim
  | shutdown => exact .bind (hkeep (shutdown_only now) (by decide)) fun _ => .pure _

/-- Quiet calls make no router deprecate its prefix. -/
theorem quiet_calm {c : Call} (h : Quiet c) : Changes calm (c.act now) :=
  quiet_changes calm_reads (by decide) (fun _ _ h => receive_calm h) transmitted_calm h

/-- The router keeps its site. -/
def settled : Frame World := .same fun w => w.router.identity.site

/-- Whether the site prefix is settled is read from the site only. -/
theorem settled_reads : Reads settled [.site] := fun _ _ h => h .site (by decide)

/-- What does not change the site leaves it settled. -/
theorem keeps_settled {α : Type} {m : Io α} {S : List Field} (h : Changes (only S) m)
    (hS : Field.site ∉ S) : Changes settled m :=
  h.keeps settled_reads fun a ha => by
    rw [List.mem_singleton.1 ha]
    exact hS

/-- Receiving a packet does not change the site. -/
theorem receive_settled (l : Link) (packet : Bytes) : Changes settled (receive l packet now) := by
  refine receive_changes settled_reads l now (by decide) fun e nd he hnd =>
    receiveNd_changes settled_reads l e nd now ?_ (fun _ => ?_) fun _ =>
    receiveRa_changes settled_reads l e nd now ?_ fun o ho => ?_
  · cases l <;> decide
  · exact keeps_settled (receiveSolicitation_only l now nd) (by simp [electionFields])
  · cases l <;> decide
  · exact keeps_settled (observeOption_only l now _ _ o) (by cases l <;> decide)

/-- No call but a tick or a configuration changes the site. -/
theorem quiet_settled {c : Call} (h : Quiet c) : Changes settled (c.act now) :=
  quiet_changes settled_reads (by decide) (fun l packet _ => receive_settled l packet)
    (fun tx success => keeps_settled (transmitted_only now tx success) (by
      cases tx.link <;> decide)) h

end Calls

/-! ## The group -/

/-- Routers on one link: what they returned for it, what was sent on it, and who gave way to
whom. -/
structure Group (ι : Type) where
  router : ι → Router
  out : List (ι × Tx)
  net : List (ι × Bytes)
  yielded : List (ι × ι)

namespace Group

variable {ι : Type}

/-- The beginning: nothing was sent. -/
structure Fresh (g : Group ι) : Prop where
  out : g.out = []
  net : g.net = []
  yielded : g.yielded = []
  state : ∀ i, (g.router i).state .ail ≠ .deprecating

/-- Router `i` has transmitted its prefix with a positive lifetime. -/
def Spoke (g : Group ι) (i : ι) : Prop :=
  ∃ packet e nd, (i, packet) ∈ g.net ∧ readRa packet = some (e, nd) ∧ Supplies nd (g.router i).own

/-- What holds on every run, where router `i` has the prefix `p i`. -/
structure Inv (p : ι → Prefix) (g : Group ι) : Prop where
  own : ∀ i, (g.router i).own = p i
  out : ∀ i tx, (i, tx) ∈ g.out → tx.link = .ail → Speaks (p i) tx.packet
  net : ∀ i packet, (i, packet) ∈ g.net → Speaks (p i) packet
  yielded : ∀ i j, (i, j) ∈ g.yielded → g.Spoke j ∧ Lower (p j) (p i)
  state : ∀ i, (g.router i).state .ail = .deprecating → ∃ j, (i, j) ∈ g.yielded

variable {p : ι → Prefix} {g g' : Group ι}

/-- A fresh group satisfies the invariant: nothing was sent and nobody has yielded, so its clauses
about packets and yielding are empty. -/
theorem Fresh.inv (h : g.Fresh) : Inv (fun i => (g.router i).own) g where
  own _ := rfl
  out i tx hm := by
    rw [h.out] at hm
    cases hm
  net i packet hm := by
    rw [h.net] at hm
    cases hm
  yielded i j hm := by
    rw [h.yielded] at hm
    cases hm
  state i hi := absurd hi (h.state i)

/-- A router that spoke has spoken. -/
theorem Spoke.mono {j : ι} (h : g.Spoke j) (hown : (g'.router j).own = (g.router j).own)
    (hnet : g.net ⊆ g'.net) : g'.Spoke j := by
  obtain ⟨packet, e, nd, hmem, hread, hsup⟩ := h
  exact ⟨packet, e, nd, hnet hmem, hread, by rwa [hown]⟩

/-- A router that advertises and hears another one goes on, unless the other one has transmitted a
lower prefix. -/
theorem Inv.holds (h : g.Inv p) (hula : ∀ i, (p i).ula = true) {i j : ι}
    {packet : Bytes} {now : Nat} {draw : Random} (hsent : (j, packet) ∈ g.net)
    (hstate : (g.router i).state .ail = .advertising) (hno : ¬ (g.Spoke j ∧ Lower (p j) (p i))) :
    (run (g.router i) ⟨.receive .ail packet, now, draw⟩).2.state .ail ≠ .deprecating := by
  intro hdep
  cases hread : readRa packet with
  | none =>
    have hcalm := (receive_calm (.inr hread) : Changes calm (receive .ail packet now))
      ⟨g.router i, draw, 0⟩ hdep
    rw [hstate] at hcalm
    cases hcalm
  | some x =>
    obtain ⟨e, nd⟩ := x
    have hspeaks := h.net j packet hsent
    have hhold (Q : Prefix) (hq : Speaks Q packet) (hu : Q.ula = true) (hle : ¬ Lower Q (p i)) :
        False := by
      have := (receive_holding hq ⟨e, nd, hread⟩ hu hle :
        Changes (holding (p i)) (receive .ail packet now)) ⟨g.router i, draw, 0⟩ ⟨h.own i, hstate⟩
      exact absurd (this.2.symm.trans hdep) nofun
    rcases Classical.em (g.Spoke j) with hspoke | hspoke
    · exact hhold (p j) hspeaks (hula j) fun hl => hno ⟨hspoke, hl⟩
    · refine hhold (p i) (fun e' nd' hread' => ?_) (hula i) (lt_irrefl _)
      obtain ⟨hdst, hflag, hsup⟩ := hspeaks e' nd' hread'
      refine ⟨hdst, hflag, fun q hq => absurd ?_ hspoke⟩
      rw [hsup q hq, ← h.own j] at hq
      exact ⟨packet, e', nd', hsent, hread', hq⟩

/-- Sending a packet that a router returned keeps the invariant. -/
theorem Inv.send (h : g.Inv p) {i : ι} {tx : Tx} (hmem : (i, tx) ∈ g.out) (hl : tx.link = .ail) :
    Inv p { g with net := (i, tx.packet) :: g.net } := by
  refine ⟨h.own, h.out, fun k packet hm => ?_, fun k j hm => ?_, h.state⟩
  · rcases List.mem_cons.1 hm with heq | hm
    · cases heq
      exact h.out i tx hmem hl
    · exact h.net k packet hm
  · obtain ⟨hspoke, hlower⟩ := h.yielded k j hm
    exact ⟨hspoke.mono rfl (List.subset_cons_self _ _), hlower⟩

/-- Of the routers that have transmitted their prefix one has never given way. -/
theorem Inv.survivor (h : g.Inv p) (hspoke : ∃ i, g.Spoke i) :
    ∃ i, g.Spoke i ∧ ∀ j, (i, j) ∉ g.yielded := by
  have hfin : {i | g.Spoke i}.Finite := by
    refine (List.finite_toSet (g.net.map Prod.fst)).subset ?_
    rintro i ⟨packet, e, nd, hmem, -⟩
    exact List.mem_map_of_mem (f := Prod.fst) hmem
  obtain ⟨i, hi, hmin⟩ := Set.exists_min_image _ (fun i => OrdKey.code (p i)) hfin hspoke
  refine ⟨i, hi, fun j hm => ?_⟩
  obtain ⟨hj, hlower⟩ := h.yielded i j hm
  exact absurd (hmin j hj) (not_le.2 hlower)

variable [DecidableEq ι]

/-- One router is called. -/
def call (g : Group ι) (i : ι) (input : Input) : Group ι :=
  { g with router := Function.update g.router i (run (g.router i) input).2 }

/-- The packets of a result. -/
def packets : Except IoError (List Tx) → List Tx
  | .ok out => out
  | .error _ => []

/-- The clock of one router. -/
def ticked (g : Group ι) (i : ι) (now : Nat) (draw : Random) : Group ι :=
  { g.call i ⟨.tick, now, draw⟩ with
    out := g.out ++ (packets (run (g.router i) ⟨.tick, now, draw⟩).1).map (Prod.mk i) }

/-- A router hears what router `j` sent; it may give way to it. -/
def heard (g : Group ι) (i j : ι) (packet : Bytes) (now : Nat) (draw : Random) : Group ι :=
  let g' := g.call i ⟨.receive .ail packet, now, draw⟩
  { g' with
    yielded := if (g.router i).state .ail = .advertising ∧ (g'.router i).state .ail = .deprecating
      then (i, j) :: g.yielded else g.yielded }

/-- What can happen on the link. -/
inductive Step : Group ι → Group ι → Prop
  | tick (g : Group ι) (i : ι) (now : Nat) (draw : Random)
      (same : ((g.ticked i now draw).router i).identity.site = (g.router i).identity.site) :
      Step g (g.ticked i now draw)
  | send (g : Group ι) (i : ι) (tx : Tx) (returned : (i, tx) ∈ g.out) (ail : tx.link = .ail) :
      Step g { g with net := (i, tx.packet) :: g.net }
  | deliver (g : Group ι) (i j : ι) (packet : Bytes) (now : Nat) (draw : Random)
      (sent : (j, packet) ∈ g.net) : Step g (g.heard i j packet now draw)
  | other (g : Group ι) (i : ι) (input : Input) (quiet : Quiet input.call) : Step g (g.call i input)

/-- A call changes the router that it is made on. -/
@[simp] theorem call_self (g : Group ι) (i : ι) (input : Input) :
    (g.call i input).router i = (run (g.router i) input).2 := Function.update_self ..

/-- A call changes no other router. -/
theorem call_ne (g : Group ι) {i k : ι} (h : k ≠ i) (input : Input) :
    (g.call i input).router k = g.router k := Function.update_of_ne h ..

/-- A call that does not change the site leaves every router with its prefix. -/
theorem Inv.call_own (h : g.Inv p) {i : ι} {input : Input}
    (hsite : (run (g.router i) input).2.identity.site = (g.router i).identity.site) (k : ι) :
    ((g.call i input).router k).own = p k := by
  rcases Decidable.em (k = i) with rfl | hk
  · rw [call_self]
    exact (own_congr (show Agree _ _ .site from hsite)).trans (h.own k)
  · rw [call_ne g hk]
    exact h.own k

/-- A call that leaves the site alone and lets nobody deprecate. The packets in flight and those of
the net are as before, so only the own prefix and the state are to be shown. -/
theorem Inv.call (h : g.Inv p) {i : ι} {input : Input}
    (hsite : (run (g.router i) input).2.identity.site = (g.router i).identity.site)
    (hcalm : (run (g.router i) input).2.state .ail = .deprecating →
      (g.router i).state .ail = .deprecating) : (g.call i input).Inv p where
  own := h.call_own hsite
  out := h.out
  net := h.net
  yielded k j hm := by
    obtain ⟨hspoke, hlower⟩ := h.yielded k j hm
    exact ⟨hspoke.mono ((h.call_own hsite j).trans (h.own j).symm) (List.Subset.refl _), hlower⟩
  state k hk := by
    rcases Decidable.em (k = i) with rfl | hne
    · rw [call_self] at hk
      exact h.state k (hcalm hk)
    · rw [call_ne g hne] at hk
      exact h.state k hk

/-- A tick that does not change the site keeps the invariant. What was in flight stays there, and
what the tick adds is an encoded snapshot of the router or says nothing about prefixes. -/
theorem Inv.tick (h : g.Inv p) {i : ι} {now : Nat} {draw : Random}
    (same : ((g.ticked i now draw).router i).identity.site = (g.router i).identity.site) :
    (g.ticked i now draw).Inv p := by
  have hsite :
      (run (g.router i) ⟨.tick, now, draw⟩).2.identity.site = (g.router i).identity.site := by
    rw [← same]
    exact congrArg (fun r => r.identity.site) (call_self g i ⟨.tick, now, draw⟩).symm
  have hcall := h.call hsite (tick_calm ⟨g.router i, draw, 0⟩)
  refine ⟨hcall.own, fun k tx hm hl => ?_, hcall.net, hcall.yielded, hcall.state⟩
  rcases List.mem_append.1 hm with hm | hm
  · exact h.out k tx hm hl
  · obtain ⟨tx', htx, heq⟩ := List.mem_map.1 hm
    cases heq
    cases hrun : Router.tick now ⟨g.router i, draw, 0⟩ with
    | mk result w =>
      have hrun' : run (g.router i) ⟨.tick, now, draw⟩ = (result, w.router) := by
        simp only [run, Call.act, hrun]
      rw [hrun'] at htx hsite
      cases result with
      | error err => cases htx
      | ok out =>
        have hown : w.router.own = p i :=
          (own_congr (show Agree _ _ .site from hsite)).trans (h.own i)
        rcases tick_sends now _ out w trivial hrun tx htx hl with hs | ha
        · exact hs.speaks _
        · rw [← hown]
          exact ha.speaks

/-- Delivering a packet keeps the invariant: a router yields to lower prefixes only. The packet was
sent by a router of the group, so a suitable prefix in it is that router's own (`suitable_own`), and
it was spoken before. -/
theorem Inv.deliver (h : g.Inv p) (hula : ∀ i, (p i).ula = true) {i j : ι}
    {packet : Bytes} {now : Nat} {draw : Random} (hsent : (j, packet) ∈ g.net) :
    (g.heard i j packet now draw).Inv p := by
  have hsite := (receive_settled .ail packet : Changes settled (receive .ail packet now))
    ⟨g.router i, draw, 0⟩
  have hown : ∀ k, ((g.call i ⟨.receive .ail packet, now, draw⟩).router k).own = p k :=
    h.call_own hsite
  have hspoke {k : ι} (hk : g.Spoke k) : (g.heard i j packet now draw).Spoke k :=
    hk.mono ((hown k).trans (h.own k).symm) (List.Subset.refl _)
  have hself : (g.heard i j packet now draw).router i =
      (run (g.router i) ⟨.receive .ail packet, now, draw⟩).2 := call_self g i _
  refine ⟨hown, h.out, h.net, fun k m hm => ?_, fun k hk => ?_⟩
  · have hold (hm : (k, m) ∈ g.yielded) :
        (g.heard i j packet now draw).Spoke m ∧ Lower (p m) (p k) := by
      obtain ⟨hs, hlower⟩ := h.yielded k m hm
      exact ⟨hspoke hs, hlower⟩
    simp only [heard, call_self] at hm
    split at hm
    · next hmoved =>
      rcases List.mem_cons.1 hm with heq | hm
      · cases heq
        by_contra hno
        exact h.holds hula hsent hmoved.1 (fun hl => hno ⟨hspoke hl.1, hl.2⟩) hmoved.2
      · exact hold hm
    · exact hold hm
  · have hsub : ∀ x ∈ g.yielded, x ∈ (g.heard i j packet now draw).yielded := by
      intro x hx
      simp only [heard]
      split
      · exact List.mem_cons_of_mem _ hx
      · exact hx
    rcases Decidable.em (k = i) with rfl | hne
    · rw [hself] at hk
      have hlisten := (receive_listening : Changes listening (receive .ail packet now))
        ⟨g.router k, draw, 0⟩
      rcases hlisten.1 hk with hd | ha
      · obtain ⟨m, hm⟩ := h.state k hd
        exact ⟨m, hsub _ hm⟩
      · refine ⟨j, ?_⟩
        simp only [heard, call_self, ha, hk, and_self, if_true]
        exact List.mem_cons_self
    · have hk' : (g.router k).state .ail = .deprecating := by
        rw [← hk]
        exact congrArg (fun r => r.state .ail)
          (call_ne g hne ⟨.receive .ail packet, now, draw⟩).symm
      obtain ⟨m, hm⟩ := h.state k hk'
      exact ⟨m, hsub _ hm⟩

/-- Every step keeps what holds. -/
theorem Inv.step (h : g.Inv p) (hula : ∀ i, (p i).ula = true) (hstep : Step g g') : g'.Inv p := by
  cases hstep with
  | tick i now draw same => exact h.tick same
  | send i tx returned ail => exact h.send returned ail
  | deliver i j packet now draw sent => exact h.deliver hula sent
  | other i input quiet =>
    exact h.call (quiet_settled quiet ⟨g.router i, input.draw, 0⟩)
      (quiet_calm quiet ⟨g.router i, input.draw, 0⟩)

/-- The invariant holds along every path. -/
theorem Inv.path (h : g.Inv p) (hula : ∀ i, (p i).ula = true)
    (hrun : Relation.ReflTransGen Step g g') : g'.Inv p := by
  induction hrun with
  | refl => exact h
  | tail _ hstep ih => exact ih.step hula hstep

/-- A router with the lowest prefix of those that have transmitted theirs does not begin to
deprecate it. -/
theorem Inv.winner (h : g.Inv p) (hula : ∀ i, (p i).ula = true) {i : ι}
    (hlow : ∀ j, g.Spoke j → ¬ Lower (p j) (p i)) (hstate : (g.router i).state .ail = .advertising)
    (hstep : Step g g') : (g'.router i).state .ail ≠ .deprecating := by
  have hcall {k : ι} {input : Input} (hk : (run (g.router k) input).2.state .ail = .deprecating →
      k = i → False) : ((g.call k input).router i).state .ail ≠ .deprecating := by
    rcases Decidable.em (i = k) with rfl | hne
    · rw [call_self]
      exact fun hd => hk hd rfl
    · rw [call_ne g hne, hstate]
      exact nofun
  cases hstep with
  | tick k now draw same =>
    refine hcall fun hd hk => ?_
    have := tick_calm ⟨g.router k, draw, 0⟩ hd
    rw [hk, hstate] at this
    cases this
  | send k tx returned ail =>
    rw [hstate]
    exact nofun
  | deliver k j packet now draw sent =>
    refine hcall fun hd hk => ?_
    subst hk
    exact h.holds hula sent hstate (fun hno => hlow j hno.1 hno.2) hd
  | other k input quiet =>
    refine hcall fun hd hk => ?_
    have := quiet_calm quiet ⟨g.router k, input.draw, 0⟩ hd
    rw [hk, hstate] at this
    cases this

/-- A router that advertises and takes in a lower prefix gives way. The prefix is lower than the
router's own by the invariant, and the packet is followed through the reception
(`receive_lower`). -/
theorem Inv.loser (h : g.Inv p) (hula : ∀ i, (p i).ula = true) {i j : ι} {packet : Bytes}
    {e : Envelope} {nd : Nd} {q : Prefix} {now : Nat} {draw : Random} {out : List Tx}
    (hsent : (j, packet) ∈ g.net) (hread : readRa packet = some (e, nd)) (hsup : Supplies nd q)
    (hq : Lower q (p i)) (hstate : (g.router i).state .ail = .advertising)
    (htakes : Takes (g.router i) e)
    (hok : (run (g.router i) ⟨.receive .ail packet, now, draw⟩).1 = .ok out) :
    ((g.heard i j packet now draw).router i).state .ail = .deprecating := by
  have hdst : e.destination.isMulticast = true := by
    rw [(h.net j packet hsent e nd hread).1]
    decide
  have hrun : receive .ail packet now ⟨g.router i, draw, 0⟩ =
      (.ok out, (receive .ail packet now ⟨g.router i, draw, 0⟩).2) := Prod.ext hok rfl
  have hgone := receive_lower hread hdst hsup (hula i) hq ⟨g.router i, draw, 0⟩ out _
    ⟨⟨h.own i, .inl hstate⟩, htakes⟩ hrun
  rw [show (g.heard i j packet now draw).router i =
    (run (g.router i) ⟨.receive .ail packet, now, draw⟩).2 from call_self g i _]
  exact hgone.2

/-- On every run of routers with prefixes of their own, in every order of ticks, transmissions and
receptions: the router with the lowest prefix of those that were transmitted does not give way,
every router that advertises gives way to a lower prefix that it hears, no two routers give way to
each other, and one of those that have advertised is left. Reference: `Router::receive`
(`router/mod.rs:351`), `Router::transmitted` (`router/mod.rs:789`). -/
theorem election_keeps_winner {g₀ : Group ι} (start : g₀.Fresh)
    (ula : ∀ i, (g₀.router i).own.ula = true) (path : Relation.ReflTransGen Step g₀ g) :
    (∀ i g', g.Spoke i → (∀ j, g.Spoke j → ¬ Lower (g.router j).own (g.router i).own) →
      (g.router i).state .ail = .advertising → Step g g' →
        (g'.router i).state .ail ≠ .deprecating) ∧
    (∀ i j packet e nd q now draw out, (j, packet) ∈ g.net → readRa packet = some (e, nd) →
      Supplies nd q → Lower q (g.router i).own → (g.router i).state .ail = .advertising →
        Takes (g.router i) e →
        (run (g.router i) ⟨.receive .ail packet, now, draw⟩).1 = .ok out →
          ((g.heard i j packet now draw).router i).state .ail = .deprecating) ∧
    (∀ i j, (i, j) ∈ g.yielded → (j, i) ∉ g.yielded) ∧
    ((∃ i, g.Spoke i) → ∃ i, g.Spoke i ∧ (g.router i).state .ail ≠ .deprecating ∧
      ∀ j, (i, j) ∉ g.yielded) := by
  have inv := start.inv.path ula path
  refine ⟨fun i g' _ hlow hstate hstep => ?_, fun i j packet e nd q now draw out hsent hread hsup hq
    hstate htakes hok => ?_, fun i j hij hji => ?_, fun hspoke => ?_⟩
  · refine inv.winner ula (fun j hj => ?_) hstate hstep
    have := hlow j hj
    rwa [inv.own, inv.own] at this
  · rw [inv.own] at hq
    exact inv.loser ula hsent hread hsup hq hstate htakes hok
  · exact lt_asymm (inv.yielded i j hij).2 (inv.yielded j i hji).2
  · obtain ⟨i, hi, hnever⟩ := inv.survivor hspoke
    refine ⟨i, hi, fun hd => ?_, hnever⟩
    obtain ⟨j, hj⟩ := inv.state i hd
    exact hnever j hj

/-- A router with a prefix of its own that advertises it. -/
def sampleRouter (n : Nat) : Router :=
  fresh ⟨"", ⟨.ofValue ((0xfd * 2 ^ 40 + n) * 2 ^ 80), 48⟩, ⟨n, n⟩,
      ⟨zeros 6, zeros 6⟩, zeros 18⟩
    ⟨.default, ⟨.empty⟩, ⟨.ofValue 0, 96⟩, .empty, false, (.none, ""), .empty⟩
    { newLink 0 0 0 with state := .advertising } (newLink 0 0 0)

/-- Two such routers. -/
def sampleGroup : Group Bool := ⟨fun b => sampleRouter (cond b 2 1), [], [], []⟩

/-- What the first of them sends at its first tick. -/
def sampleSent : List Tx := packets (run (sampleRouter 1) ⟨.tick, 0, fun _ _ => .ok 0⟩).1

/-- The sample sends more than one packet. -/
theorem sampleSent_length : 1 < sampleSent.length := by decide +kernel

def sampleTx : Tx := sampleSent.get ⟨1, sampleSent_length⟩

/-- The second one hears it. -/
def sampleEnd : Group Bool :=
  heard { sampleGroup.ticked false 0 (fun _ _ => .ok 0) with net := [(false, sampleTx.packet)] }
    true false sampleTx.packet 0 fun _ _ => .ok 0

/-- The theorem applied to a group of two: one of them has given way to the other, so the other has
not given way to it. -/
theorem election_keeps_winner_two :
    (true, false) ∈ sampleEnd.yielded ∧ (false, true) ∉ sampleEnd.yielded := by
  have hyielded : (true, false) ∈ sampleEnd.yielded := by decide +kernel
  have start : sampleGroup.Fresh := ⟨rfl, rfl, rfl, by decide +kernel⟩
  have path : Relation.ReflTransGen Step sampleGroup sampleEnd := by
    refine .tail (.tail (.tail .refl (.tick _ false 0 (fun _ _ => .ok 0) (by decide +kernel)))
      (.send _ false sampleTx ?_ (by decide +kernel))) ?_
    · exact List.mem_map_of_mem (List.get_mem _ _)
    · exact .deliver _ true false _ 0 _ List.mem_cons_self
  exact ⟨hyielded,
    (election_keeps_winner start (by decide +kernel) path).2.2.1 true false hyielded⟩

/-! ## Advertisements that are not taken in -/

/-- Every router that advertises gives way to a lower prefix that reaches it, whatever becomes of
the advertisement. -/
def AlwaysYields (g : Group ι) : Prop :=
  ∀ i j packet e nd q now draw, (j, packet) ∈ g.net → readRa packet = some (e, nd) →
    Supplies nd q → Lower q (g.router i).own → (g.router i).state .ail = .advertising →
      Takes (g.router i) e → ((g.heard i j packet now draw).router i).state .ail = .deprecating

/-- Whether a router takes from the link a packet that offers the prefix `p`, and the prefix is
lower than its own. -/
def undercut (r : Router) (e : Envelope) (p : Pio) : Bool :=
  !r.lifecycle.ending && r.links.ail.up &&
    !(e.source == r.identity.linkLocal .ail && r.addressReady .ail e.source) && p.suitable &&
      decide (OrdKey.code p.prefix_ < OrdKey.code r.own)

/-- Whether a packet is an advertisement that undercuts a router. -/
def undercuts (r : Router) (packet : Bytes) : Bool :=
  (readRa packet).any fun x => x.2.options.any fun o => (Pio.decode o.bytes).any (undercut r x.1)

/-- What it takes for a packet to undercut a router. -/
theorem undercuts_spec {r : Router} {packet : Bytes} (h : undercuts r packet = true) :
    ∃ e nd q, readRa packet = some (e, nd) ∧ Supplies nd q ∧ Lower q r.own ∧ Takes r e := by
  obtain ⟨⟨e, nd⟩, hread, h⟩ := (Option.any_eq_true _ _).1 h
  obtain ⟨o, ho, h⟩ := List.any_eq_true.1 h
  obtain ⟨p, hp, h⟩ := (Option.any_eq_true _ _).1 h
  simp only [undercut, Bool.and_eq_true, Bool.not_eq_true', decide_eq_true_eq] at h
  obtain ⟨⟨⟨⟨hends, hup⟩, hown⟩, hsuit⟩, hlower⟩ := h
  refine ⟨e, nd, p.prefix_, hread, ⟨o, ho, p, hp, hsuit, rfl⟩, hlower, hends, hup, fun hmine => ?_⟩
  rw [hmine.2, Bool.and_true, beq_eq_false_iff_ne] at hown
  exact hown hmine.1

/-- A router that hears a lower prefix and goes on advertising does not give way. -/
theorem not_alwaysYields {g : Group ι} {i j : ι} {packet : Bytes} (now : Nat) (draw : Random)
    (hsent : (j, packet) ∈ g.net) (hunder : undercuts (g.router i) packet = true)
    (hstate : (g.router i).state .ail = .advertising)
    (hstays : (run (g.router i) ⟨.receive .ail packet, now, draw⟩).2.state .ail = .advertising) :
    ¬ g.AlwaysYields := by
  intro h
  obtain ⟨e, nd, q, hread, hsup, hlower, htakes⟩ := undercuts_spec hunder
  have hgone := h i j packet e nd q now draw hsent hread hsup hlower hstate htakes
  rw [show (g.heard i j packet now draw).router i =
    (run (g.router i) ⟨.receive .ail packet, now, draw⟩).2 from call_self g i _, hstays] at hgone
  cases hgone

/-- The sample's routers `34, .., 3`. -/
def sampleOthers : List UInt8 := (List.range 32).map fun k => .ofNat (34 - k)

/-- The link-local address of a router of the sample. -/
def sampleAddress (n : UInt8) : Ipv6Addr :=
  ⟨[0xfe, 0x80, 0, 0, 0, 0, 0, 0, 0, 0, 0, 0, 0, 0, 0, n], rfl⟩

/-- The prefix of a router of the sample. -/
def samplePrefix (n : UInt8) : Prefix :=
  ⟨⟨[0xfd, 0, 0, 0, 0, n, 0, 1, 0, 0, 0, 0, 0, 0, 0, 0], rfl⟩, 64⟩

/-- The second router of the sample when it has heard the advertisements of 32 others, all of them
at the beginning: it has no room for another router. -/
def crowdedRouter : Router :=
  { sampleRouter 2 with
    headers := sampleOthers.foldl (fun m n => m.insert (.ail, sampleAddress n) ⟨0, true, 0, none⟩)
      .empty
    suppliers := sampleOthers.foldl (fun m n => m.insert ((.ail, sampleAddress n), samplePrefix n)
      ⟨true, 0, .until_ 1800000, .until_ 1800000⟩) .empty
    neighbors := sampleOthers.foldl (fun m n => m.insert (.ail, sampleAddress n)
      ⟨some (zeros 6).1, .probe, some 1000, 1, true, none⟩) .empty
    onLink := ⟨sampleOthers.foldl (fun m n => m.insert (.ail, samplePrefix n) (.until_ 1800000))
      .empty, .empty⟩
    attachment := ⟨.rotate, .empty,
      sampleOthers.foldl (fun m n => m.insert (sampleAddress n).1 ()) .empty, true⟩ }

/-- 34 routers of the sample: the crowded one, the one with the lowest prefix and the 32 that the
first has heard. -/
def crowdedGroup : Group (Fin 34) :=
  ⟨fun k => if k = 0 then crowdedRouter else sampleRouter (if k = 1 then 1 else k + 1), [], [], []⟩

/-- A group after the first tick of router `j` and the transmission of what the first router of the
sample says then. -/
def afterFirst (g : Group ι) (j : ι) : Group ι :=
  { g.ticked j 0 (fun _ _ => .ok 0) with net := [(j, sampleTx.packet)] }

/-- The first call changes its own router only. -/
theorem afterFirst_router {g : Group ι} {j k : ι} (h : k ≠ j) :
    (g.afterFirst j).router k = g.router k := call_ne g h _

/-- The first call is a path from a fresh group. -/
theorem path_afterFirst {g : Group ι} {j : ι} (start : g.Fresh) (hj : g.router j = sampleRouter 1) :
    Relation.ReflTransGen Step g (g.afterFirst j) := by
  have hsame : ((g.ticked j 0 fun _ _ => .ok 0).router j).identity.site =
      (g.router j).identity.site := by
    refine (congrArg (fun r => r.identity.site) (call_self g j _)).trans ?_
    rw [hj]
    decide +kernel
  have hout : (j, sampleTx) ∈ (g.ticked j 0 fun _ _ => .ok 0).out := by
    simp only [ticked, hj, start.out]
    exact List.mem_map_of_mem (List.get_mem _ _)
  have hsend := Step.send (g.ticked j 0 fun _ _ => .ok 0) j sampleTx hout (by decide +kernel)
  rw [show (g.ticked j 0 fun _ _ => .ok 0).net = [] from start.net] at hsend
  exact .tail (.tail .refl (.tick g j 0 _ hsame)) hsend

/-- The election fails where an advertisement is not taken in. A router that has heard 32 others
refuses the lowest prefix for want of room, and one whose random source fails does not get to the
prefix; both go on advertising. -/
theorem crowdedGroup_refuses :
    (∃ g, crowdedGroup.Fresh ∧ (∀ i, (crowdedGroup.router i).own.ula = true) ∧
      (∀ i j, (crowdedGroup.router i).own = (crowdedGroup.router j).own → i = j) ∧
      Relation.ReflTransGen Step crowdedGroup g ∧ ¬ g.AlwaysYields) ∧
    ∃ g, sampleGroup.Fresh ∧ (∀ i, (sampleGroup.router i).own.ula = true) ∧
      (∀ i j, (sampleGroup.router i).own = (sampleGroup.router j).own → i = j) ∧
      Relation.ReflTransGen Step sampleGroup g ∧ ¬ g.AlwaysYields := by
  have hcrowded : crowdedGroup.Fresh := ⟨rfl, rfl, rfl, by decide +kernel⟩
  have hsample : sampleGroup.Fresh := ⟨rfl, rfl, rfl, by decide +kernel⟩
  refine ⟨⟨_, hcrowded, by decide +kernel, by decide +kernel,
      path_afterFirst (j := 1) hcrowded rfl, ?_⟩,
    ⟨_, hsample, by decide +kernel, by decide +kernel,
      path_afterFirst (j := false) hsample rfl, ?_⟩⟩
  · have hrouter : (crowdedGroup.afterFirst 1).router 0 = crowdedRouter :=
      afterFirst_router (by decide)
    refine not_alwaysYields (i := 0) (j := 1) 0 (fun _ _ => .ok 0) List.mem_cons_self ?_ ?_ ?_
    all_goals
      rw [hrouter]
      decide +kernel
  · have hrouter : (sampleGroup.afterFirst false).router true = sampleRouter 2 :=
      afterFirst_router (by decide)
    refine not_alwaysYields (i := true) (j := false) 0
      (fun _ _ => .error ⟨.other, "random source"⟩) List.mem_cons_self ?_ ?_ ?_
    all_goals
      rw [hrouter]
      decide +kernel

end Group

end SnacMachine.Router
