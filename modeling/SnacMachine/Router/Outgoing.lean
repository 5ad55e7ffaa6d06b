import SnacMachine.Router.Frames

/-!
# What each call leaves alone, continued

The fields that a tick, a report of what was sent and the calls of the driver change.
-/

namespace SnacMachine.Router

open Ip Nat64 Act

/-! ## Ticks -/

section Ticks

variable (now : Nat)

/-- A tick of the address checks changes what is owned only. -/
theorem tickDad_only : Changes (only [.owned]) (tickDad now) := by
  refine .bind look_only fun r => .bind (update_only fun r a ha => ?_) fun _ => .pure _
  exact agree_of_restore rfl ha

/-- A tick of a neighbor changes no more than forwarding does. It drops the neighbor with an error
for its packet, or probes for it again. -/
theorem tickNeighbor_only (key : RouterKey) :
    Changes (only forwardFields) (tickNeighbor now key) := by
  refine .bind look_only fun r => ?_
  split
  · exact .pure _
  · refine .ite (.bind (update_only fun r a ha => ?_) fun _ => ?_)
      (.bind (update_only fun r a ha => ?_) fun _ => .bind ?_ fun _ => .pure _)
    · exact agree_of_restore rfl ha
    · split
      · split
        · exact icmpError_only now _ _ _ _ _
        · exact .pure _
      · exact .pure _
    · exact agree_of_restore rfl ha
    · exact (probe_only now key).widen (by decide)

/-- A tick of all neighbors changes no more than forwarding does. -/
theorem tickNeighbors_only : Changes (only forwardFields) (tickNeighbors now) :=
  .bind (reap_only now) fun _ => .bind look_only fun _ =>
    .bind (.mapM fun k _ => tickNeighbor_only now k) fun _ => .pure _

/-- The fields that `expire` changes. -/
def expireFields : List Field := [.suppliers, .onAil, .onStub, .routes, .headers, .owned]

/-- Dropping what has expired changes the tables that hold lifetimes. -/
theorem expire_only : Changes (only expireFields) (update (expire now)) :=
  update_restores fun _ => rfl

/-- A link that has become ready starts to advertise. -/
theorem enableReady_only (ready : Both Bool) (l : Link) :
    Changes (only [.link l .scheduler]) (enableReady ready now l) :=
  .bind look_only fun _ => .ite (enable_only l now) (.pure _)

/-- A tick of the prefix delegation changes nothing else. -/
theorem tickPd_only : Changes (only [.pd]) (tickPd now) := by
  refine .bind look_only fun r => .ite (.when (PdClient.start_only now) fun _ => ?_) (.pure _)
  exact .bind (PdClient.poll_only now _ _) fun _ => .pure _

end Ticks

/-! ## Attachment -/

section Attachment

variable (now : Nat)

/-- The fields that the change of one link's prefix changes. -/
def rotateLinkFields (l : Link) : List Field :=
  [.retiredUlas, .onLink l, .link l .lastValid, .link l .deprecateAt, .link l .state,
    .link l .scheduler]

/-- Retiring a prefix changes the retired ones and what is on the link. -/
theorem retirePrefix_only (l : Link) :
    Changes (only [.retiredUlas, .onLink l]) (update (retirePrefix l now)) := by
  refine update_only fun r a ha => ?_
  unfold retirePrefix
  dsimp only
  split
  · have hne : a ≠ .onLink l := fun h => ha (by simp [h])
    refine (insert_agree l r (r.identity.prefix_ l) ⟨(r.links.get l).lastValid,
      .until_ now⟩ hne).trans ?_
    exact agree_of_restore_one .retiredUlas rfl fun h => ha (by simp [h])
  · exact .refl r a

/-- Rotating a link changes its prefix, and announces the change. -/
theorem rotateLink_only (l : Link) : Changes (only (rotateLinkFields l)) (rotateLink l now) := by
  refine .bind ((retirePrefix_only now l).widen (by simp [rotateLinkFields])) fun _ =>
    .bind ?_ fun _ => ?_
  · refine (updateLink_only (P := [.lastValid, .deprecateAt, .state]) fun s p hp => ?_).widen ?_
    · cases p <;> first | rfl | exact absurd (by decide) hp
    · simp [rotateLinkFields]
  · exact (changed_only l now).widen (by simp [rotateLinkFields])

/-- The fields that a change of the site changes. -/
def rotateFields : List Field :=
  .nat64 :: .site :: .pd :: (rotateLinkFields .ail ++ rotateLinkFields .stub)

/-- Rotating the site prefix changes the site, both links, and what depends on them. -/
theorem rotateUla_only : Changes (only rotateFields) (rotateUla now) := by
  refine .bind (update_only fun r a ha => ?_) fun _ => .bind look_only fun r => ?_
  · exact agree_of_restore rfl ha
  refine .ite (other_only _) (.bind (fill_only _) fun _ => .ite (other_only _) ?_)
  refine .bind (update_only fun r a ha => ?_) fun _ => .bind (.lift _) fun _ => .bind ?_ fun _ =>
    .bind ?_ fun _ => .bind (update_only fun r a ha => ?_) fun _ => ?_
  · exact agree_of_restore rfl ha
  · exact (rotateLink_only now .ail).widen (by decide)
  · exact (rotateLink_only now .stub).widen (by decide)
  · exact agree_of_restore rfl ha
  · exact (PdClient.refresh_only now 6).widen (by decide)

/-- The fields that a change of attachment changes. -/
def attachmentFields : List Field := .attachment :: .identity :: rotateFields

/-- Configuring the attachment changes the site if the policy asks for it. -/
theorem configureAttachment_only (policy : UlaPolicy) (configured : Option String) :
    Changes (only attachmentFields) (configureAttachment policy configured now) := by
  refine .bind (update_only fun r a ha => ?_) fun _ => ?_
  · exact agree_of_restore rfl ha
  split
  · exact .pure _
  · refine .ite (other_only _) (.bind look_only fun r => .when ?_ fun _ =>
      update_only fun r a ha => ?_)
    · exact (rotateUla_only now).widen (by decide)
    · exact agree_of_restore rfl ha

/-- Finishing the choice of a site prefix changes the site if another one is chosen. -/
theorem finishAttachment_only : Changes (only attachmentFields) (finishAttachment now) := by
  refine .bind look_only fun r => .ite (.bind (update_only fun r a ha => ?_) fun _ => ?_) (.pure _)
  · exact agree_of_restore rfl ha
  · exact .ite ((rotateUla_only now).widen (by decide)) (.pure _)

end Attachment

/-! ## Advertisements -/

section Advertisements

variable (l : Link) (now : Nat)

/-- Encoding an advertisement changes the services and the translation only. -/
theorem encodeServices_agree (ad : Advertisement) (r : Router) {a : Field}
    (ha : a ∉ [Field.services, .nat64]) : Agree r (encodeServices ad now r).2 a := by
  unfold encodeServices
  split
  · exact .refl r a
  · dsimp only
    split
    · exact agree_of_restore rfl ha
    · split
      · exact agree_of_restore rfl ha
      · exact agree_of_restore rfl ha

/-- The fields that the encoding of an advertisement changes. -/
def encodeFields : List Field := .services :: .nat64 :: degradeFields

/-- Encoding an advertisement notes what was encoded, and degrades the router if its services do not
fit. -/
theorem encodeOrDegrade_only (snap : Advertisement) :
    Changes (only encodeFields) (encodeOrDegrade l snap now) := by
  have hagree (ad : Advertisement) (r : Router) {a : Field} (ha : a ∉ encodeFields) :
      Agree r (encodeServices ad now r).2 a :=
    encodeServices_agree now ad r fun hm =>
      ha ((by decide : [Field.services, .nat64] ⊆ encodeFields) hm)
  intro w
  simp only [encodeOrDegrade, look_bind_run]
  have hfirst := @hagree snap w.router
  generalize encodeServices snap now w.router = x at hfirst ⊢
  obtain ⟨encoded, r⟩ := x
  refine (only encodeFields).trans (t := { w with router := r }) (fun a ha => hfirst ha) ?_
  simp only [update_bind_run]
  split
  · exact (only encodeFields).refl _
  · refine Changes.bind (R := only encodeFields) ((degrade_only now).widen (by decide))
      (fun _ => ?_) _
    intro w
    have hsecond := @hagree (w.router.snapshot l now) w.router
    simp only [look_bind_run]
    generalize encodeServices (w.router.snapshot l now) now w.router = x at hsecond ⊢
    obtain ⟨encoded, r⟩ := x
    refine (only encodeFields).trans (t := { w with router := r }) (fun a ha => hsecond ha) ?_
    simp only [update_bind_run]
    split
    · exact (only encodeFields).refl _
    · exact (only encodeFields).refl _
  · exact (only encodeFields).refl _

/-- Sending an advertisement changes no more than encoding it; its transmission is reported
later. -/
theorem advertise_only : Changes (only encodeFields) (advertise l now) := by
  refine .bind look_only fun r =>
    .ite (.when ((degrade_only now).widen (by decide)) fun _ => ?_) (.pure _)
  refine .bind look_only fun r => .ite (.bind ?_ fun _ => .pure _) (.pure _)
  exact encodeOrDegrade_only l now _

/-- The fields that the election of a prefix changes. -/
def electionFields : List Field := [.link l .state, .link l .deprecateAt, .link l .scheduler]

/-- The state of the infrastructure link may change in the election. -/
theorem electionState_only {P : List Part} {f : LinkState → LinkState}
    (hP : P ⊆ [.state, .deprecateAt]) (h : ∀ s p, p ∉ P → Part.Agree s (f s) p) :
    Changes (only (electionFields l)) (updateLink l f) := by
  refine (updateLink_only h).widen fun a ha => ?_
  obtain ⟨p, hp, rfl⟩ := List.mem_map.1 ha
  have := hP hp
  simp only [List.mem_cons, List.not_mem_nil, or_false] at this
  rcases this with rfl | rfl <;> simp [electionFields]

/-- Resuming to advertise changes the state of the link and its scheduler. -/
theorem resumeAdvertising_only : Changes (only (electionFields l)) (resumeAdvertising l now) := by
  refine .bind look_only fun r => .ite (.bind ?_ fun _ => ?_) (.pure _)
  · refine electionState_only l (P := [.state, .deprecateAt]) (by decide) fun s p hp => ?_
    cases p <;> first | rfl | exact absurd (by decide) hp
  · exact (changed_only l now).widen (by simp [electionFields])

/-- A solicitation changes no more than the election does. -/
theorem receiveSolicitation_only (nd : Nd) :
    Changes (only (electionFields l)) (receiveSolicitation l nd now) := by
  refine .bind look_only fun r => .branch ?_ fun _ hrest => .bind ?_ fun _ =>
    .bind ?_ fun _ => hrest
  · exact (receiveRs_only l now nd).widen (by simp [electionFields])
  · refine electionState_only l (P := [.state, .deprecateAt]) (by decide) fun s p hp => ?_
    cases p <;> first | rfl | exact absurd (by decide) hp
  · exact (changed_only l now).widen (by simp [electionFields])

/-- Discovery changes no more than the election does. -/
theorem discover_only : Changes (only (electionFields l)) (discover l now) := by
  refine .bind look_only fun r =>
    .ite (.ite (.bind ?_ fun _ => .bind ?_ fun _ => .pure _) ?_) (.pure _)
  · refine electionState_only l (P := [.state]) (by decide) fun s p hp => ?_
    cases p <;> first | rfl | exact absurd (by decide) hp
  · exact (enable_only l now).widen (by simp [electionFields])
  · refine .ite ?_ (.pure _)
    split
    · exact .pure _
    · exact other_only _

/-- Beginning to be on a link changes what is on the link, and announces it. -/
theorem beginOnLink_only :
    Changes (only [.link .ail .scheduler, .onLink l]) (beginOnLink l now) := by
  refine .bind look_only fun r => .ite (.when ?_ fun _ => update_only fun r a ha => ?_) (.pure _)
  · exact (changed_only .ail now).widen (by simp)
  · exact insert_agree l r _ _ fun h => ha (by simp [h])

/-- The fields that the turn of a link changes. -/
def tickLinkFields : List Field :=
  [.link .ail .scheduler, .onLink l] ++ electionFields l ++ encodeFields

/-- A tick of a link changes the election, what is on the link, and what is advertised. -/
theorem tickLink_only : Changes (only (tickLinkFields l)) (tickLink now l) := by
  refine .bind look_only fun r =>
    .ite (.pure _) (.bind ?_ fun _ => .bind ?_ fun _ => .bind ?_ fun _ =>
    .bind ?_ fun _ => .pure _)
  · exact (resumeAdvertising_only l now).widen (by simp [tickLinkFields, electionFields])
  · exact (discover_only l now).widen (by simp [tickLinkFields, electionFields])
  · exact (beginOnLink_only l now).widen (by simp [tickLinkFields])
  · exact (advertise_only l now).widen (by simp [tickLinkFields, encodeFields, degradeFields])

/-- The fields that the last ticks change. -/
def stoppingFields : List Field := [.finalRas, .lifecycle, .services, .nat64]

/-- The last advertisements of a link change what is left to be sent. Every branch writes the count,
or what the encoding of the services writes. -/
theorem stoppingLink_only : Changes (only stoppingFields) (stoppingLink now l) := by
  have hfinal (f : Router → Both Nat) :
      Changes (only stoppingFields) (update fun r => { r with finalRas := f r }) :=
    update_restores fun _ => rfl
  intro w
  simp only [stoppingLink, look_bind_run]
  split
  · exact (Changes.bind (hfinal _) fun _ => .pure _) w
  · split
    · split
      · exact (Changes.bind (hfinal _) fun _ => .pure _) w
      · have hagree := @encodeServices_agree now (w.router.snapshot l now) w.router
        generalize encodeServices (w.router.snapshot l now) now w.router = x at hagree ⊢
        obtain ⟨encoded, r⟩ := x
        refine (only stoppingFields).trans (t := { w with router := r }) (fun a ha => ?_) ?_
        · exact hagree fun hm => ha ((by decide : [Field.services, .nat64] ⊆ stoppingFields) hm)
        · simp only [update_bind_run]
          split
          · exact (only stoppingFields).refl _
          · exact (only stoppingFields).refl _
    · exact (only stoppingFields).refl w

end Advertisements

/-! ## What was sent -/

section Sent

variable (l : Link) (now : Nat)

/-- The fields that a report of what was sent changes. -/
def sentFields : List Field :=
  [.finalRas, .lifecycle, .nat64, .services, .advertisedRoutes, .withdrawals, .pdPrefixes, .owned,
    .onLink l, .link l .scheduler, .link l .state, .link l .lastValid, .link l .discovery]

/-- The services that were transmitted are noted as such. -/
theorem servicesTransmitted_only (nd : Nd) :
    Changes (only [.services, .nat64]) (servicesTransmitted l nd now) := by
  refine .ite (.pure _) (.bind look_only fun r => .bind (update_only fun r a ha => ?_) fun _ =>
    .bind (.lift _) fun _ => update_only fun r a ha => ?_)
  · exact agree_of_restore rfl ha
  · exact agree_of_restore rfl ha

/-- A route that was transmitted is noted as such. -/
theorem noteExport_agree (r : Router) (o : NdOption) {a : Field}
    (ha : a ∉ [Field.advertisedRoutes, .withdrawals]) : Agree r (noteExport l now r o) a := by
  unfold noteExport
  split
  · exact .refl r a
  · dsimp only
    split
    · exact agree_of_restore rfl ha
    · split
      · exact agree_of_restore rfl ha
      · exact .refl r a

/-- Owning an address of a transmitted prefix changes what is owned only. -/
theorem ownAddress_agree (r : Router) (p : Prefix) {a : Field} (ha : a ≠ .owned) :
    Agree r (r.ownAddress l now p) a := by
  unfold ownAddress
  split
  · exact .refl r a
  · dsimp only
    split
    · exact .refl r a
    · exact agree_of_restore_one _ rfl ha

/-- The fields that the prefixes of an advertisement change. -/
def prefixFields : List Field := [.owned, .pdPrefixes, .onLink l, .link l .lastValid]

/-- Noting until when a prefix was advertised changes that moment only. -/
theorem lastValid_agree (r : Router) (v : Lifetime) {a : Field} (ha : a ≠ .link l .lastValid) :
    Agree r { r with links := r.links.set l { r.links.get l with lastValid := v } } a := by
  refine links_agree (P := [.lastValid]) (f := fun s => { s with lastValid := v })
    (fun s p hp => ?_) r ?_
  · cases p <;> first | rfl | exact absurd (by decide) hp
  · simpa using ha

/-- A prefix that was transmitted is noted as such, and as an address of the router. The fields that
are written are those of the link's own prefixes. -/
theorem notePrefix_agree (r : Router) (o : NdOption) {a : Field} (ha : a ∉ prefixFields l) :
    Agree r (notePrefix l now r o) a := by
  unfold notePrefix
  split
  · exact .refl r a
  · have hown : a ≠ .owned := fun h => ha (by simp [prefixFields, h])
    have hon : a ≠ .onLink l := fun h => ha (by simp [prefixFields, h])
    have hlast : a ≠ .link l .lastValid := fun h => ha (by simp [prefixFields, h])
    have hpd : a ≠ .pdPrefixes := fun h => ha (by simp [prefixFields, h])
    dsimp only
    refine .trans ?_ (ownAddress_agree l now _ _ hown)
    refine .trans ?_ (insert_agree l _ _ _ hon)
    split
    · exact lastValid_agree l r _ hlast
    · exact agree_of_restore_one _ rfl hpd

/-- A last advertisement that was sent counts, and the last one of all stops the router. -/
theorem finalSent_only : Changes (only [.finalRas, .lifecycle]) (update (finalSent l)) := by
  refine update_only fun r a ha => ?_
  unfold finalSent
  split
  · exact agree_of_restore rfl ha
  · exact .refl r a

/-- The routes that were transmitted are noted as such. -/
theorem noteExports_only (nd : Nd) :
    Changes (only [.advertisedRoutes, .withdrawals]) (update fun r =>
    let r := nd.options.foldl (noteExport l now) r
    { r with withdrawals := r.withdrawals.retain fun _ count => decide (0 < count) }) := by
  refine update_only fun r a ha => .trans (foldl_agree
    (fun r o _ hb => noteExport_agree l now r o hb) nd.options r ha) ?_
  exact agree_of_restore rfl ha

/-- The prefixes that were transmitted are noted as such. -/
theorem notePrefixes_only (nd : Nd) :
    Changes (only (prefixFields l)) (update fun r => nd.options.foldl (notePrefix l now) r) :=
  update_only fun r _ ha => foldl_agree (fun r o _ hb => notePrefix_agree l now r o hb)
  nd.options r ha

/-- An advertisement that was sent, for a frame that allows its change of the link's state. All else
that is written is outside of what the frame reads. -/
theorem sentRa_changes {R : Frame World} {F : List Field} (hR : Reads R F) (nd : Nd)
    (hF : ∀ a ∈ F, a ∉ [Field.finalRas, .lifecycle, .services, .nat64, .link l .scheduler,
      .advertisedRoutes, .withdrawals] ++ prefixFields l)
    (hstate : ∀ own, Changes R (updateLink l fun s =>
      { s with state := advertisedState nd own s.state })) :
    Changes R (sentRa l nd now) := by
  have hkeep {m : Io Unit} {S : List Field} (h : Changes (only S) m)
      (hS : S ⊆ [Field.finalRas, .lifecycle, .services, .nat64, .link l .scheduler,
        .advertisedRoutes, .withdrawals] ++ prefixFields l) : Changes R m :=
    h.keeps hR fun a ha hm => hF a ha (hS hm)
  refine .bind (hkeep (finalSent_only l) (by simp)) fun _ => ?_
  refine .bind (hkeep (servicesTransmitted_only l now nd) (by simp)) fun _ => ?_
  refine .bind (hkeep (sent_only l now) (by simp)) fun _ => ?_
  refine .bind (look_only.keeps (S := []) hR nofun) fun r => .bind (hstate _) fun _ => ?_
  refine .bind (hkeep (noteExports_only l now nd) (by simp)) fun _ => ?_
  exact hkeep (notePrefixes_only l now nd) (List.subset_append_right _ _)

/-- An advertisement that was sent changes what is noted of its parts, and the scheduler of the
link. -/
theorem sentRa_only (nd : Nd) : Changes (only (sentFields l)) (sentRa l nd now) := by
  refine .bind ((finalSent_only l).widen ?_) fun _ =>
    .bind ((servicesTransmitted_only l now nd).widen ?_) fun _ =>
    .bind ((sent_only l now).widen ?_) fun _ => .bind look_only fun r => .bind ?_ fun _ =>
    .bind ((noteExports_only l now nd).widen ?_) fun _ => (notePrefixes_only l now nd).widen ?_
  · simp [sentFields]
  · simp [sentFields]
  · simp [sentFields]
  · refine (updateLink_only (P := [.state]) fun s p hp => ?_).widen (by simp [sentFields])
    cases p <;> first | rfl | exact absurd (by decide) hp
  · simp [sentFields]
  · simp [prefixFields, sentFields]

/-- A probe that was not sent is to be sent again. -/
theorem unsent_agree (tx : Tx) (r : Router) {a : Field} (ha : a ≠ .owned) :
    Agree r (unsent tx now r) a := by
  unfold unsent
  split
  · exact .refl r a
  · split
    · exact .refl r a
    · split
      · exact agree_of_restore_one _ rfl ha
      · exact .refl r a

/-- Reporting a packet changes what is noted of it, whether it was sent or not. One case for each
kind of packet that is looked at. -/
theorem transmitted_only (tx : Tx) (success : Bool) :
    Changes (only (sentFields tx.link)) (transmitted tx now success) := by
  refine .ite (update_only fun r a ha => ?_) ?_
  · exact unsent_agree now tx r fun h => ha (by simp [sentFields, h])
  split
  · exact .pure _
  · split
    · exact .pure _
    · refine .when ?_ fun _ => .ite (sentRa_only tx.link now _) (.pure _)
      refine (updateLink_only (P := [.discovery]) fun s p hp => ?_).widen (by simp [sentFields])
      unfold solicited
      split
      · cases p <;> first | rfl | exact absurd (by decide) hp
      · exact .refl s p

end Sent

/-! ## Other calls -/

section Calls

variable (now : Nat)

/-- A new inventory of services is announced on the stub link. -/
theorem serviceInventory_only (resolvers : List Ipv6Addr) (ipv4 : Option Nat) (translator : Bool) :
    Changes (only [.services, .link .stub .scheduler])
      (serviceInventory resolvers ipv4 translator now) := by
  refine .bind look_only fun r => .bind (update_only fun r a ha => ?_) fun _ => .ite ?_ (.pure _)
  · exact agree_of_restore rfl ha
  · exact (changed_only .stub now).widen (by decide)

/-- A new policy of translation is announced on the stub link. -/
theorem configureNat64_only (policy : Policy) :
    Changes (only [.nat64, .link .stub .scheduler]) (configureNat64 policy now) := by
  refine .bind look_only fun r => .bind (update_only fun r a ha => ?_) fun _ =>
    .bind (.lift _) fun _ => .ite ?_ (.pure _)
  · exact agree_of_restore rfl ha
  · exact (changed_only .stub now).widen (by decide)

/-- The fields that `shutdown` changes. -/
def shutdownFields : List Field := .finalRas :: degradeFields

/-- Shutting down changes what is left to be sent on both links. -/
theorem shutdown_only : Changes (only shutdownFields) (shutdown now) := by
  refine .bind look_only fun r => .ite (.pure _) (.bind (update_only fun r a ha => ?_) fun _ =>
    .forM fun l _ => .bind (update_only fun r a ha => ?_) fun _ => ?_)
  · exact agree_of_restore rfl ha
  · exact agree_of_restore rfl ha
  · cases l with
    | ail => exact (changed_only .ail now).widen (by decide)
    | stub => exact (changed_only .stub now).widen (by decide)

/-- The fields that new addresses of the router change. -/
def addressFields : List Field :=
  .owned :: .link .ail .discovery :: .link .stub .discovery :: degradeFields

/-- Beginning to check an address changes what is owned, and the discovery of its link. -/
theorem dad_only (l : Link) (address : Ipv6Addr) :
    Changes (only addressFields) (beginDad l address now) := by
  cases l with
  | ail => exact (beginDad_only .ail now address).widen (by decide)
  | stub => exact (beginDad_only .stub now address).widen (by decide)

/-- Preparing addresses of services begins to check them. -/
theorem prepareServiceAddresses_only :
    Changes (only addressFields) (prepareServiceAddresses now) := by
  refine .bind look_only fun r => .bind (.mapM fun k _ => ?_) fun _ => .pure _
  refine .bind look_only fun r => .ite (.pure _) (.ite (.bind ?_ fun _ => other_only _) ?_)
  · exact (degrade_only now).widen (by decide)
  · exact .bind (dad_only now k.1 _) fun _ => .pure _

/-- Starting begins to check the addresses of both links. -/
theorem start_only : Changes (only addressFields) (start now) := by
  refine .bind (update_only fun r a ha => ?_) fun _ => .mapM fun l _ => ?_
  · exact agree_of_restore rfl ha
  · exact .bind look_only fun r => dad_only now l _

end Calls

end SnacMachine.Router
