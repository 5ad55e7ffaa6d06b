import Mathlib.Data.List.Nodup
import SnacMachine.Dns.Privacy

/-!
# Why a route is encrypted

A policy that routes an origin over TLS has a reason for it (`route_justified`): a probe of that
very endpoint and name succeeded in time, no failure followed, and the endpoint is the origin's own
port for TLS or was designated by replies of the origin whose records all last as long.
-/

namespace SnacMachine.Dns.Privacy

/-! ## What a reply designates -/

/-- What a designation is of. -/
def key (d : Designation) : SocketAddr × String := (d.endpoint, d.serverName)

/-- Designations are alike if they designate the same service; `key` is what is compared. -/
theorem alike_iff {c d : Designation} : Alike c d ↔ key c = key d := by
  rw [Alike, key, key, Prod.mk.injEq]

/-- A lifetime does not run past the moment that its seconds count to. -/
theorem deadline_le (now : Nat) (ttl : UInt32) : deadline now ttl ≤ now + ttl.toNat * 1000 := by
  refine Nat.le_trans (satAdd_le _ _) (Nat.add_le_add_left ?_ _)
  exact Nat.mul_le_mul_right _ (Nat.min_le_left _ _)

/-- A fold of minima is below its start and all that it reads. By induction on the list, for any
start. -/
theorem foldl_min_le {α : Type} (f : α → Nat) (l : List α) (t : Nat) :
    l.foldl (fun t a => min t (f a)) t ≤ t ∧ ∀ a ∈ l, l.foldl (fun t a => min t (f a)) t ≤ f a := by
  induction l generalizing t with
  | nil => exact ⟨Nat.le_refl _, fun _ h => (nomatch h)⟩
  | cons x l ih =>
    obtain ⟨hstart, hall⟩ := ih (min t (f x))
    rw [List.foldl_cons]
    refine ⟨Nat.le_trans hstart (Nat.min_le_left _ _), ?_⟩
    intro a ha
    cases List.mem_cons.1 ha with
    | inl ha =>
      rw [ha]
      exact Nat.le_trans hstart (Nat.min_le_right _ _)
    | inr ha => exact hall a ha

/-- The records of a designation outlive it. -/
def Outlived (origin : SocketAddr) (m : Message) (now expires : Nat) (r : Record) : Prop :=
  expires ≤ now + r.ttl.toNat * 1000 ∧
    ∀ priority target params, svcb r = some (priority, target, params) →
      ∀ a ∈ addresses m target, a.1 = origin.ip → expires ≤ now + a.2.toNat * 1000

/-- A record outlives every shorter time. -/
theorem Outlived.mono {origin : SocketAddr} {m : Message} {now expires expires' : Nat} {r : Record}
    (h : Outlived origin m now expires r) (hle : expires' ≤ expires) :
    Outlived origin m now expires' r :=
  ⟨Nat.le_trans hle h.1, fun _ _ _ hs a ha heq => Nat.le_trans hle (h.2 _ _ _ hs a ha heq)⟩

/-- A designation that a record is made into is at the address of the resolver, and lasts no longer
than the record. -/
theorem candidate_spec {origin : SocketAddr} {m : Message} {now : Nat} {r : Record}
    {d : Designation} (h : candidate origin m now r = some d) :
    d.endpoint.ip = origin.ip ∧ Outlived origin m now d.expires r := by
  simp only [candidate, Option.bind_eq_bind, Option.bind_eq_some_iff] at h
  obtain ⟨⟨priority, target, params⟩, hsvcb, serverName, -, h⟩ := h
  simp only at h
  split at h
  · cases h
  · obtain ⟨alpn, -, h⟩ := Option.bind_eq_some_iff.1 h
    split at h
    · cases h
    · split at h
      · cases h
      · split at h
        · cases h
        · cases h
          obtain ⟨hstart, hall⟩ := foldl_min_le (fun a : IpAddr × UInt32 => deadline now a.2)
            ((addresses m target).filter fun a => a.1 == origin.ip) (deadline now r.ttl)
          refine ⟨rfl, Nat.le_trans hstart (deadline_le _ _), ?_⟩
          intro priority' target' params' hsvcb' a ha heq
          rw [hsvcb] at hsvcb'
          cases hsvcb'
          exact Nat.le_trans (hall a (List.mem_filter.2 ⟨ha, beq_iff_eq.2 heq⟩)) (deadline_le _ _)

/-- The candidates, each for all the designations of its endpoint and name. -/
structure Merged (done out : List Designation) : Prop where
  nodup : (out.map key).Nodup
  from_ : ∀ c ∈ out, ∃ d ∈ done, key d = key c
  covers : ∀ d ∈ done, key d ∈ out.map key
  expires : ∀ c ∈ out, ∀ d ∈ done, key d = key c → c.expires ≤ d.expires

/-- Nothing merged into nothing. -/
theorem Merged.nil : Merged [] [] :=
  ⟨.nil, fun _ h => (nomatch h), fun _ h => (nomatch h), fun _ h => (nomatch h)⟩

/-- Combining a designation with the ones before it changes lifetimes only, not which services there
are. -/
theorem map_key_combine (d : Designation) (out : List Designation) :
    (combine d out).map key = out.map key := by
  induction out with
  | nil => rfl
  | cons c cs ih =>
    rw [combine]
    split
    · rfl
    · rw [List.map_cons, ih, List.map_cons]

/-- What a combined list holds was there before for the same service, and lasts no longer than each
of the two. -/
theorem mem_combine {d c : Designation} {out : List Designation} (hout : (out.map key).Nodup)
    (h : c ∈ combine d out) :
    ∃ c' ∈ out, key c = key c' ∧ c.expires ≤ c'.expires ∧
    (key d = key c → c.expires ≤ d.expires) := by
  induction out with
  | nil => cases h
  | cons x xs ih =>
    obtain ⟨hx, hxs⟩ := List.nodup_cons.1 hout
    rw [combine] at h
    split at h
    · next halike =>
      cases List.mem_cons.1 h with
      | inl h =>
        subst h
        exact ⟨x, List.mem_cons_self, rfl, Nat.min_le_left _ _, fun _ => Nat.min_le_right _ _⟩
      | inr h =>
        refine ⟨c, List.mem_cons_of_mem _ h, rfl, Nat.le_refl _, ?_⟩
        intro hkey
        rw [alike_iff.1 halike, hkey] at hx
        exact absurd (List.mem_map.2 ⟨c, h, rfl⟩) hx
    · next halike =>
      cases List.mem_cons.1 h with
      | inl h =>
        subst h
        exact ⟨c, List.mem_cons_self, rfl, Nat.le_refl _, fun hkey =>
          absurd (alike_iff.2 hkey.symm) halike⟩
      | inr h =>
        obtain ⟨c', hc', hrest⟩ := ih hxs h
        exact ⟨c', List.mem_cons_of_mem _ hc', hrest⟩

/-- A designation of a service that is there already is merged into it: the service expires no later
than before, nor later than the designation. -/
theorem Merged.combine {done out : List Designation} {d : Designation} (h : Merged done out)
    (hd : key d ∈ out.map key) : Merged (done ++ [d]) (combine d out) where
  nodup := by
    rw [map_key_combine]
    exact h.nodup
  from_ := by
    intro c hc
    obtain ⟨c', hc', hkey, -⟩ := mem_combine h.nodup hc
    obtain ⟨d', hd', heq⟩ := h.from_ c' hc'
    exact ⟨d', List.mem_append_left _ hd', heq.trans hkey.symm⟩
  covers := by
    intro d' hd'
    rw [map_key_combine]
    cases List.mem_append.1 hd' with
    | inl hd' => exact h.covers d' hd'
    | inr hd' =>
      rw [List.mem_singleton.1 hd']
      exact hd
  expires := by
    intro c hc d' hd' heq
    obtain ⟨c', hc', hkey, hle, hnew⟩ := mem_combine h.nodup hc
    cases List.mem_append.1 hd' with
    | inl hd' => exact Nat.le_trans hle (h.expires c' hc' d' hd' (heq.trans hkey))
    | inr hd' =>
      rw [List.mem_singleton] at hd'
      subst hd'
      exact hnew heq

/-- A designation of a new service is merged in as it is: it is appended, since no merged
designation has its key. Each part of `Merged` is split by whether its designation is the new
one. -/
theorem Merged.push {done out : List Designation} {d : Designation} (h : Merged done out)
    (hnew : key d ∉ out.map key) : Merged (done ++ [d]) (out ++ [d]) where
  nodup := by
    rw [List.map_append]
    exact List.nodup_append_comm.1 (List.nodup_cons.2 ⟨hnew, h.nodup⟩)
  from_ := by
    intro c hc
    cases List.mem_append.1 hc with
    | inl hc =>
      obtain ⟨d', hd', heq⟩ := h.from_ c hc
      exact ⟨d', List.mem_append_left _ hd', heq⟩
    | inr hc =>
      rw [List.mem_singleton.1 hc]
      exact ⟨d, List.mem_append_right _ List.mem_cons_self, rfl⟩
  covers := by
    intro d' hd'
    rw [List.map_append]
    cases List.mem_append.1 hd' with
    | inl hd' => exact List.mem_append_left _ (h.covers d' hd')
    | inr hd' =>
      rw [List.mem_singleton.1 hd']
      exact List.mem_append_right _ List.mem_cons_self
  expires := by
    intro c hc d' hd' heq
    cases List.mem_append.1 hd' with
    | inl hd' =>
      cases List.mem_append.1 hc with
      | inl hc => exact h.expires c hc d' hd' heq
      | inr hc =>
        rw [List.mem_singleton.1 hc] at heq
        exact absurd (heq ▸ h.covers d' hd') hnew
    | inr hd' =>
      rw [List.mem_singleton] at hd'
      subst hd'
      cases List.mem_append.1 hc with
      | inl hc => exact absurd (List.mem_map.2 ⟨c, hc, heq.symm⟩) hnew
      | inr hc => rw [List.mem_singleton.1 hc]

/-- Collecting the designations of a message merges all of them; the induction is on those still to
come. -/
theorem collect_spec {done out ds res : List Designation} (h : Merged done out)
    (hc : collect out ds = .ok res) : Merged (done ++ ds) res := by
  induction ds generalizing done out with
  | nil =>
    cases hc
    rw [List.append_nil]
    exact h
  | cons d ds ih =>
    rw [← List.singleton_append, ← List.append_assoc]
    rw [collect] at hc
    split at hc
    · next hany =>
      obtain ⟨c, hmem, halike⟩ := List.any_eq_true.1 hany
      exact ih (h.combine (List.mem_map.2 ⟨c, hmem, alike_iff.1 (of_decide_eq_true halike)⟩)) hc
    · next hany =>
      split at hc
      · cases hc
      · refine ih (h.push ?_) hc
        intro hmem
        obtain ⟨c, hmem, hkey⟩ := List.mem_map.1 hmem
        exact hany (List.any_eq_true.2 ⟨c, hmem, decide_eq_true (alike_iff.2 hkey)⟩)

/-- The order of the merged designations does not matter. -/
theorem Merged.perm {done out out' : List Designation} (h : Merged done out)
    (hp : out'.Perm out) : Merged done out' where
  nodup := (hp.map key).nodup_iff.2 h.nodup
  from_ := fun c hc => h.from_ c (hp.mem_iff.1 hc)
  covers := fun d hd => (hp.map key).mem_iff.2 (h.covers d hd)
  expires := fun c hc => h.expires c (hp.mem_iff.1 hc)

/-- What a discovery rests on: the alias on one record, a candidate on all the records of its
endpoint and name. -/
structure Founded (origin : SocketAddr) (m : Message) (now : Nat) (q : Question) (d : Discovery) :
    Prop where
  alias_ : ∀ name expires, d.alias_ = some (name, expires) →
    ∃ r ∈ replyRecords m q.name, ∃ params, svcb r = some (0, name, params) ∧
      expires = deadline now r.ttl
  candidates : ∀ c ∈ d.candidates, origin.ip.local_ = true ∧
    Merged ((replyRecords m q.name).filterMap (candidate origin m now)) d.candidates

/-- What is made of octets that may not parse was parsed. -/
theorem ofWire_eq_ok {α : Type} {o : Option α} {x : α} (h : ofWire o = .ok x) : o = some x := by
  cases o with
  | none => cases h
  | some y =>
    cases h
    rfl

/-- What the discovery takes from a reply is founded on the records of the reply. The function
either follows an alias record or collects the services; in both cases what it returns is read from
a record of the answer section with `ServiceBinding::from_wire`. -/
theorem ddrCandidates_spec {origin : SocketAddr} {m : Message} {now : Nat} {rng : Random}
    {d : Discovery} {q : Question} (hq : m.questions = [q])
    (h : ddrCandidates origin m now rng = .ok d) : Founded origin m now q d := by
  rw [ddrCandidates, hq] at h
  simp only at h
  split at h
  · cases h
  · simp only [bind, Except.bind] at h
    split at h
    · cases h
    · split at h
      · split at h
        · cases h
        · split at h
          · cases h
          · next r hr =>
            split at h
            · cases h
            · next sv hsv =>
              cases h
              refine ⟨?_, fun _ h => (nomatch h)⟩
              intro name expires halias
              have hmem := List.mem_filter.1 (List.mem_of_getElem? (ofWire_eq_ok hr))
              obtain ⟨priority, target, params⟩ := sv
              have hsvcb := ofWire_eq_ok hsv
              have hzero : priority = 0 := by
                have := hmem.2
                rw [hsvcb] at this
                exact beq_iff_eq.1 this
              simp only at halias
              split at halias
              · cases halias
                exact ⟨r, hmem.1, params, hzero ▸ hsvcb, rfl⟩
              · cases halias
      · split at h
        · cases h
          exact ⟨fun _ _ h => (nomatch h), fun _ h => (nomatch h)⟩
        · next hlocal =>
          split at h
          · cases h
          · next out hout =>
            cases h
            exact ⟨fun _ _ h => (nomatch h), fun _ _ => ⟨by simpa using hlocal,
              (collect_spec .nil hout).perm (List.mergeSort_perm _ _)⟩⟩

/-! ## Runs of a policy -/

/-- The calls of a policy. -/
inductive Op
  | sync (origins : List SocketAddr) (explicit : Bool) (now : Nat)
  | poll (now : Nat)
  | completeTls (id : Nat) (success : Bool) (now : Nat)
  | failed (origin endpoint : SocketAddr) (now : Nat)
  | completeDdr (id : Nat) (message : Message) (now : Nat) (rng : Random)

/-- What the calls return. -/
inductive Answer
  | nothing
  | done (r : Except IoError Unit)
  | probes (r : Except IoError (List Probe))

/-- A policy and its callers. -/
def machine : Machine Policy Op Answer where
  step p
    | .sync origins explicit now => let (r, p) := p.sync origins explicit now; (p, .done r)
    | .poll now => let (r, p) := p.poll now; (p, .probes r)
    | .completeTls id success now => (p.completeTls id success now, .nothing)
    | .failed origin endpoint now => (p.failed origin endpoint now, .nothing)
    | .completeDdr id m now rng => let (r, p) := p.completeDdr id m now rng; (p, .done r)
  time
    | .sync _ _ now => now
    | .poll now => now
    | .completeTls _ _ now => now
    | .failed _ _ now => now
    | .completeDdr _ _ now _ => now
  legal _ _ := True

/-- The calls of a run and what they returned. -/
abbrev History := List (Op × Answer)

section Reasons

variable (es : History) (origin : SocketAddr)

/-- At `now` the origin's endpoint waited for a reply, and this one came. -/
def Replied (m : Message) (now : Nat) : Prop :=
  ∃ before p t id rng r e, machine.Run .default 0 before p t ∧
    before ++ [(.completeDdr id m now rng, r)] <+: es ∧
    p.endpoints.get origin = some e ∧ Policy.awaits id now e = true

/-- The names that the origin's aliases lead to, all of them valid until `expires`. -/
inductive Followed (expires : Nat) : Name → Prop
  | start : Followed expires ddrName
  | alias_ {name target : Name} {m : Message} {now : Nat} {q : Question} {r : Record}
      {params : List (UInt16 × Bytes)} (before : Followed expires name)
      (replied : Replied es origin m now) (asked : m.questions = [q] ∧ (q.name == name) = true)
      (answered : r ∈ replyRecords m q.name ∧ svcb r = some (0, target, params))
      (valid : expires ≤ now + r.ttl.toNat * 1000) : Followed expires target

/-- Replies of a local origin designated the endpoint and name, and each record of it, each alias
that led to it and each address of the origin is valid until `expires`. -/
def Designated (endpoint : SocketAddr) (serverName : String) (expires : Nat) : Prop :=
  origin.ip.local_ = true ∧ ∃ m now q name, Replied es origin m now ∧ m.questions = [q] ∧
    (q.name == name) = true ∧ Followed es origin expires name ∧
    (∃ r ∈ replyRecords m q.name, ∃ d, candidate origin m now r = some d ∧
      key d = (endpoint, serverName)) ∧
    ∀ r ∈ replyRecords m q.name, ∀ d, candidate origin m now r = some d →
      key d = (endpoint, serverName) → Outlived origin m now expires r

/-- The probe tries the origin's own port for TLS. -/
def Opportunistic (probe : TlsProbe) (now : Nat) : Prop :=
  probe.endpoint = { origin with port := 853 } ∧ probe.serverName = origin.ip.text ∧
    probe.expires ≤ now + 300000

/-- A poll returned the probe. -/
def Emitted (probe : TlsProbe) (now : Nat) : Prop :=
  ∃ probes, (.poll now, .probes (.ok probes)) ∈ es ∧ .tls probe ∈ probes

/-- A poll left the origin waiting for the probe, whose id was new, and returned an error. -/
def Kept (probe : TlsProbe) (now : Nat) : Prop :=
  ∃ before p t err e until_, machine.Run .default 0 before p t ∧
    before ++ [(.poll now, .probes (.error err))] <+: es ∧ p.sequence < probe.id ∧
    (p.poll now).2.endpoints.get probe.origin = some e ∧ e.tls = .waiting probe until_

/-- A poll returned the probe, or made it and ran out of ids then. -/
def Made (probe : TlsProbe) (now : Nat) : Prop := Emitted es probe now ∨ Kept es probe now

/-- Why a probe is made. -/
def Grounded (probe : TlsProbe) (now : Nat) : Prop :=
  Opportunistic origin probe now ∨
    Designated es origin probe.endpoint probe.serverName probe.expires

/-- A probe of the endpoint and name, sent as `sent` says, was reported successful before its
deadline, and no failure of the endpoint was reported since. -/
def Justified (sent : History → TlsProbe → Nat → Prop) (t : Designation) : Prop :=
  ∃ before after probe start now r,
    es = before ++ (.completeTls (TlsProbe.id probe) true now, r) :: after ∧
      sent before probe start ∧ probe.origin = origin ∧ probe.endpoint = t.endpoint ∧
      probe.serverName = t.serverName ∧ probe.expires = t.expires ∧
      now < min (satAdd start 10000) probe.expires ∧
      (∀ at_ r, (.failed origin t.endpoint at_, r) ∉ after) ∧ Grounded before origin probe start

end Reasons

section Growing

variable {es es' : History} {origin : SocketAddr}

/-- A reply that came stays one that came as the run goes on. -/
theorem Replied.mono {m : Message} {now : Nat} (h : Replied es origin m now) (hes : es <+: es') :
    Replied es' origin m now := by
  obtain ⟨before, p, t, id, rng, r, e, hrun, hbefore, hrest⟩ := h
  exact ⟨before, p, t, id, rng, r, e, hrun, hbefore.trans hes, hrest⟩

/-- A name that was followed to stays so as the run goes on, and for each shorter time. -/
theorem Followed.mono {expires expires' : Nat} {name : Name} (h : Followed es origin expires name)
    (hes : es <+: es') (hle : expires' ≤ expires) : Followed es' origin expires' name := by
  induction h with
  | start => exact .start
  | alias_ _ replied asked answered valid ih =>
    exact .alias_ ih (replied.mono hes) asked answered (Nat.le_trans hle valid)

/-- A service that was designated stays so as the run goes on, and for each shorter time. -/
theorem Designated.mono {endpoint : SocketAddr} {serverName : String} {expires : Nat}
    (h : Designated es origin endpoint serverName expires) (hes : es <+: es') :
    Designated es' origin endpoint serverName expires := by
  obtain ⟨hlocal, m, now, q, name, hreply, hq, hname, hfollowed, hrest⟩ := h
  exact ⟨hlocal, m, now, q, name, hreply.mono hes, hq, hname, hfollowed.mono hes (Nat.le_refl _),
    hrest⟩

/-- A probe that was made stays made as the run goes on. -/
theorem Made.mono {probe : TlsProbe} {now : Nat} (h : Made es probe now) (hes : es <+: es') :
    Made es' probe now := by
  obtain ⟨probes, hmem, hprobe⟩ | ⟨before, p, t, err, e, until_, hrun, hbefore, hrest⟩ := h
  · exact .inl ⟨probes, hes.subset hmem, hprobe⟩
  · exact .inr ⟨before, p, t, err, e, until_, hrun, hbefore.trans hes, hrest⟩

/-- What a probe is grounded on stays as the run goes on. -/
theorem Grounded.mono {probe : TlsProbe} {now : Nat} (h : Grounded es origin probe now)
    (hes : es <+: es') : Grounded es' origin probe now :=
  h.imp_right fun h => h.mono hes

/-- What justifies a service stays as the run goes on, unless the service is reported to have
failed. -/
theorem Justified.snoc {sent : History → TlsProbe → Nat → Prop} {t : Designation} {x : Op × Answer}
    (h : Justified es origin sent t) (hx : ∀ at_ r, (.failed origin t.endpoint at_, r) ≠ x) :
    Justified (es ++ [x]) origin sent t := by
  obtain ⟨before, after, probe, start, now, r, hes, hsent, ho, he, hs, hexp, hnow, hfail, hg⟩ := h
  refine ⟨before, after ++ [x], probe, start, now, r, ?_, hsent, ho, he, hs, hexp, hnow, ?_, hg⟩
  · rw [hes, List.append_assoc, List.cons_append]
  · intro at_ r' hmem
    cases List.mem_append.1 hmem with
    | inl hmem => exact hfail at_ r' hmem
    | inr hmem => exact hx at_ r' (List.mem_singleton.1 hmem)

end Growing

/-- What an endpoint holds has its reasons in the run. -/
structure Sound (es : History) (origin : SocketAddr) (e : Endpoint) : Prop where
  followed : Followed es origin e.aliasExpires e.asked
  desired : ∀ d, e.desired = some d → Designated es origin d.endpoint d.serverName d.expires
  tls : ∀ probe until_, e.tls = .waiting probe until_ → probe.origin = origin ∧
    ∃ start, Made es probe start ∧ until_ = min (satAdd start 10000) probe.expires ∧
      Grounded es origin probe start
  working : ∀ t, e.working = some t → Justified es origin Made t

section Steps

variable {es : History} {origin : SocketAddr} {e : Endpoint} {now sequence : Nat}

/-- A new endpoint claims nothing. -/
theorem Sound.new (es : History) (origin : SocketAddr) (now : Nat) :
    Sound es origin (.new now) where
  followed := .start
  desired := fun _ h => nomatch h
  tls := fun _ _ h => nomatch h
  working := fun _ h => nomatch h

/-- An event leaves an endpoint sound, unless it reports that the service in use failed. -/
theorem Sound.snoc {x : Op × Answer} (h : Sound es origin e)
    (hx : ∀ t, e.working = some t → ∀ at_ r, (.failed origin t.endpoint at_, r) ≠ x) :
    Sound (es ++ [x]) origin e where
  followed := h.followed.mono (List.prefix_append _ _) (Nat.le_refl _)
  desired := fun d hd => (h.desired d hd).mono (List.prefix_append _ _)
  tls := by
    intro probe until_ htls
    obtain ⟨horigin, start, hmade, huntil, hground⟩ := h.tls probe until_ htls
    exact ⟨horigin, start, hmade.mono (List.prefix_append _ _), huntil,
      hground.mono (List.prefix_append _ _)⟩
  working := fun t ht => (h.working t ht).snoc (hx t ht)

/-- Letting what is outdated lapse leaves an endpoint sound. -/
theorem Sound.lapse (h : Sound es origin e) (now : Nat) : Sound es origin (e.lapse now) := by
  have hdesired : ∀ d, (e.desired.filter fun t => t.expires > now) = some d →
      Designated es origin d.endpoint d.serverName d.expires := by
    intro d hd
    exact h.desired d (Option.filter_eq_some_iff.1 hd).1
  unfold Endpoint.lapse
  simp only
  split
  · exact ⟨h.followed, hdesired, h.tls, fun _ h => nomatch h⟩
  · exact ⟨h.followed, hdesired, h.tls, h.working⟩

/-- Any state but that of waiting needs no reason. -/
theorem Sound.setTls (h : Sound es origin e) {tls : TlsState} (reason : String)
    (htls : ∀ probe until_, tls ≠ .waiting probe until_) :
    Sound es origin { e with tls, reason } :=
  ⟨h.followed, h.desired, fun probe until_ heq => absurd heq (htls probe until_), h.working⟩

/-- The state of the discovery is no part of what is claimed. -/
theorem Sound.setDdr (h : Sound es origin e) (ddr : DdrState) :
    Sound es origin { e with ddr } := ⟨h.followed, h.desired, h.tls, h.working⟩

/-- A discovery that starts over claims no less than is founded. -/
theorem Sound.resetDdr (h : Sound es origin e) : Sound es origin e.resetDdr :=
  ⟨.start, h.desired, h.tls, h.working⟩

/-- The timer of the connections drops services only. -/
theorem Sound.tlsTimer (h : Sound es origin e) (now : Nat) : Sound es origin (e.tlsTimer now) := by
  unfold Endpoint.tlsTimer
  split
  · split
    · exact h.setTls _ fun _ _ h => nomatch h
    · exact h
  · split
    · exact h.setTls _ fun _ _ h => nomatch h
    · exact h
  · exact h

/-- The timer of the discovery drops services only. -/
theorem Sound.ddrTimer (h : Sound es origin e) (now : Nat) : Sound es origin (e.ddrTimer now) := by
  unfold Endpoint.ddrTimer
  split
  · split
    · exact (h.setDdr _).resetDdr
    · exact h
  · split
    · exact (h.setDdr _).resetDdr
    · exact h
  · exact h

/-- A probe asks for a service that was designated. -/
theorem Sound.grounded (h : Sound es origin e) (now id : Nat) :
    Grounded es origin (e.tlsProbe origin now id) now := by
  unfold Grounded Endpoint.tlsProbe Endpoint.target
  cases hd : e.desired with
  | none => exact .inl ⟨rfl, rfl, satAdd_le _ _⟩
  | some d => exact .inr (h.desired d hd)

/-- What a poll says of a probe that it made for an origin: its id is new, the origin is left
waiting for it, and it is among the probes returned, if there was no error. -/
structure Makes (origin : SocketAddr) (n : Nat) (r : Except IoError (List Probe))
    (tls : Option TlsState) (probe : TlsProbe) : Prop where
  origin : probe.origin = origin
  fresh : n < probe.id
  waiting : ∃ until_, tls = some (.waiting probe until_)
  returned : ∀ probes, r = .ok probes → .tls probe ∈ probes

/-- The probe that is due is one that a poll makes, and nothing else becomes of an endpoint. If
there is no id left for the probe, the endpoint stays as it was. -/
theorem Sound.pollTls (h : Sound es origin e) {n : Nat} (hn : n ≤ sequence)
    (hmade : ∀ probe, Makes origin n (e.pollTls origin now sequence).1
      (some (e.pollTls origin now sequence).2.1.tls) probe → Made es probe now) :
    Sound es origin (e.pollTls origin now sequence).2.1 := by
  unfold Endpoint.pollTls at hmade ⊢
  split
  · next at_ htls =>
    rw [htls] at hmade
    simp only at hmade
    split
    · next hat =>
      rw [if_pos hat] at hmade
      split
      · exact h
      · next hseq =>
        rw [if_neg hseq] at hmade
        refine ⟨h.followed, h.desired, ?_, h.working⟩
        intro probe until_ hwait
        cases hwait
        refine ⟨rfl, now, hmade _ ⟨rfl, Nat.lt_succ_of_le hn, ⟨_, rfl⟩, ?_⟩, rfl, h.grounded now _⟩
        intro probes hprobes
        cases hprobes
        exact List.mem_cons_self
    · exact h
  · exact h

/-- Numbers of probes only increase when the connections are polled. -/
theorem pollTls_le (e : Endpoint) (origin : SocketAddr) (now sequence : Nat) :
    sequence ≤ (e.pollTls origin now sequence).2.2 := by
  unfold Endpoint.pollTls
  split
  · split
    · split
      · exact Nat.le_refl _
      · exact Nat.le_succ _
    · exact Nat.le_refl _
  · exact Nat.le_refl _

/-- A discovery leaves the state of the TLS probe, and gives out ids upwards. -/
theorem pollDdr_spec (e : Endpoint) (origin : SocketAddr) (now sequence : Nat) :
    (e.pollDdr origin now sequence).2.1.tls = e.tls ∧
      sequence ≤ (e.pollDdr origin now sequence).2.2 := by
  unfold Endpoint.pollDdr
  split
  · split
    · split
      · exact ⟨rfl, Nat.le_refl _⟩
      · exact ⟨rfl, Nat.le_succ _⟩
    · exact ⟨rfl, Nat.le_refl _⟩
  · exact ⟨rfl, Nat.le_refl _⟩

/-- Numbers of probes only increase when an endpoint is polled. -/
theorem poll_le (e : Endpoint) (origin : SocketAddr) (now sequence : Nat) :
    sequence ≤ (e.poll origin now sequence).2.2 := by
  unfold Endpoint.poll
  generalize ((e.lapse now).tlsTimer now).ddrTimer now = e₁
  have htls := pollTls_le e₁ origin now sequence
  generalize e₁.pollTls origin now sequence = r at htls ⊢
  obtain ⟨r, e₂, sequence₂⟩ := r
  cases r with
  | error err => exact htls
  | ok first => exact Nat.le_trans htls (pollDdr_spec e₂ origin now sequence₂).2

/-- Polling the discovery leaves an endpoint sound. -/
theorem Sound.pollDdr (h : Sound es origin e) :
    Sound es origin (e.pollDdr origin now sequence).2.1 := by
  unfold Endpoint.pollDdr
  split
  · split
    · split
      · exact h
      · exact h.setDdr _
    · exact h
  · exact h

/-- Polling an endpoint leaves it sound, if the probes that it makes are recorded in the history.
The timers go first, then the TLS side and then the DDR side, which leaves the TLS side alone
(`pollDdr_spec`). -/
theorem Sound.poll (h : Sound es origin e) {n : Nat} (hn : n ≤ sequence)
    (hmade : ∀ probe, Makes origin n (e.poll origin now sequence).1
      (some (e.poll origin now sequence).2.1.tls) probe → Made es probe now) :
    Sound es origin (e.poll origin now sequence).2.1 := by
  have htimed := ((h.lapse now).tlsTimer now).ddrTimer now
  unfold Endpoint.poll at hmade ⊢
  generalize ((e.lapse now).tlsTimer now).ddrTimer now = e₁ at htimed hmade ⊢
  have htls : (∀ probe, Makes origin n (e₁.pollTls origin now sequence).1
      (some (e₁.pollTls origin now sequence).2.1.tls) probe → Made es probe now) →
      Sound es origin (e₁.pollTls origin now sequence).2.1 := htimed.pollTls hn
  generalize e₁.pollTls origin now sequence = r at htls hmade ⊢
  obtain ⟨r, e₂, sequence₂⟩ := r
  cases r with
  | error err => exact htls hmade
  | ok first =>
    have h₂ : Sound es origin e₂ := by
      refine htls fun probe hprobe => hmade probe ⟨hprobe.origin, hprobe.fresh, ?_, ?_⟩
      · simp only
        rw [(pollDdr_spec e₂ origin now sequence₂).1]
        exact hprobe.waiting
      · intro probes hprobes
        simp only at hprobes
        cases hddr : (e₂.pollDdr origin now sequence₂).1 with
        | error err =>
          rw [hddr] at hprobes
          cases hprobes
        | ok second =>
          rw [hddr] at hprobes
          cases hprobes
          exact List.mem_append_left _ (hprobe.returned first rfl)
    exact h₂.pollDdr

end Steps

/-- All that a policy holds has its reasons in the run. -/
def AllSound (es : History) (p : Policy) : Prop :=
  ∀ origin e, p.endpoints.get origin = some e → Sound es origin e

section Steps

variable {es : History} {p : Policy}

/-- Replacing one endpoint by a sound one leaves all of them sound. -/
theorem AllSound.insert (h : AllSound es p) {origin : SocketAddr} {e : Endpoint}
    (he : Sound es origin e) (sequence : Nat) :
    AllSound es { p with endpoints := p.endpoints.insert origin e, sequence } := by
  intro origin' e' hget
  rw [OrdMap.get_insert_eq] at hget
  split at hget
  · next heq =>
    subst heq
    cases hget
    exact he
  · exact h origin' e' hget

/-- An event that reports no failure leaves all endpoints sound. -/
theorem AllSound.snoc {x : Op × Answer} (h : AllSound es p)
    (hx : ∀ origin endpoint now r, (.failed origin endpoint now, r) ≠ x) :
    AllSound (es ++ [x]) p :=
  fun origin e hget => (h origin e hget).snoc fun _ _ => hx _ _

/-- A changed result comes from a result. -/
theorem map_eq_ok {α β : Type} {f : α → β} {r : Except IoError α} {y : β} (h : r.map f = .ok y) :
    ∃ x, r = .ok x ∧ f x = y := by
  cases r with
  | error err => cases h
  | ok x =>
    cases h
    exact ⟨x, rfl, rfl⟩

/-- The loop over the origins changes no other endpoint. By induction on the origins; each turn
inserts the endpoint of its own origin. -/
theorem pollLoop_get {now : Nat} {origins : List SocketAddr} {p : Policy} {origin : SocketAddr}
    (h : origin ∉ origins) :
    (Policy.pollLoop now origins p).2.endpoints.get origin = p.endpoints.get origin := by
  induction origins generalizing p with
  | nil => rfl
  | cons o origins ih =>
    obtain ⟨hne, h⟩ := List.ne_and_not_mem_of_not_mem_cons h
    rw [Policy.pollLoop]
    cases hget : p.endpoints.get o with
    | none => exact ih h
    | some e =>
      simp only
      generalize e.poll o now p.sequence = r
      obtain ⟨r, e', sequence⟩ := r
      have hkept : (p.endpoints.insert o e').get origin = p.endpoints.get origin := by
        rw [OrdMap.get_insert_eq, if_neg (Ne.symm hne)]
      cases r with
      | error err => exact hkept
      | ok first => exact (ih h).trans hkept

/-- Polling a list of endpoints leaves all of them sound; each is polled once, and its probes are
made with new numbers. -/
theorem AllSound.pollLoop {now n : Nat} {origins : List SocketAddr} (h : AllSound es p)
    (hnodup : origins.Nodup) (hn : n ≤ p.sequence)
    (hmade : ∀ probe, Makes (TlsProbe.origin probe) n (Policy.pollLoop now origins p).1
      (((Policy.pollLoop now origins p).2.endpoints.get (TlsProbe.origin probe)).map
        Endpoint.tls) probe → Made es probe now) :
    AllSound es (Policy.pollLoop now origins p).2 := by
  induction origins generalizing p with
  | nil => exact h
  | cons origin origins ih =>
    obtain ⟨hnot, hnodup⟩ := List.nodup_cons.1 hnodup
    rw [Policy.pollLoop] at hmade ⊢
    cases hget : p.endpoints.get origin with
    | none =>
      rw [hget] at hmade
      exact ih h hnodup hn hmade
    | some e =>
      rw [hget] at hmade
      have hsound : (∀ probe, Makes origin n (e.poll origin now p.sequence).1
          (some (e.poll origin now p.sequence).2.1.tls) probe → Made es probe now) →
          Sound es origin (e.poll origin now p.sequence).2.1 := (h origin e hget).poll hn
      have hle := Nat.le_trans hn (poll_le e origin now p.sequence)
      simp only at hmade ⊢
      generalize e.poll origin now p.sequence = r at hsound hmade hle ⊢
      obtain ⟨r, e', sequence⟩ := r
      cases r with
      | error err =>
        refine h.insert (hsound fun probe hprobe => hmade probe ?_) sequence
        refine ⟨rfl, hprobe.fresh, ?_, fun _ h => nomatch h⟩
        rw [hprobe.origin]
        simp only [OrdMap.get_insert_eq, if_true, Option.map_some]
        exact hprobe.waiting
      | ok first =>
        simp only at hmade hsound hle ⊢
        refine ih (h.insert (hsound ?_) sequence) hnodup hle ?_
        · intro probe hprobe
          refine hmade probe ⟨rfl, hprobe.fresh, ?_, fun probes hprobes => ?_⟩
          · rw [hprobe.origin, pollLoop_get hnot]
            simp only [OrdMap.get_insert_eq, if_true, Option.map_some]
            exact hprobe.waiting
          · obtain ⟨rest, -, rfl⟩ := map_eq_ok hprobes
            exact List.mem_append_left _ (hprobe.returned first rfl)
        · intro probe hprobe
          refine hmade probe ⟨rfl, hprobe.fresh, hprobe.waiting, fun probes hprobes => ?_⟩
          obtain ⟨rest, hrest, rfl⟩ := map_eq_ok hprobes
          exact List.mem_append_right _ (hprobe.returned rest hrest)

/-- Polling leaves all endpoints sound, since its answer is part of the history: a probe that an
endpoint waits for was returned by the poll, or the poll has failed. -/
theorem AllSound.poll {now t : Nat} (h : AllSound es p) (hrun : machine.Run .default 0 es p t) :
    AllSound (es ++ [(.poll now, .probes (p.poll now).1)]) (p.poll now).2 := by
  have hsnoc : AllSound (es ++ [(.poll now, .probes (p.poll now).1)]) p :=
    h.snoc fun _ _ _ _ heq => nomatch heq
  have hmade : ∀ probe, Makes (TlsProbe.origin probe) p.sequence (p.poll now).1
      (((p.poll now).2.endpoints.get (TlsProbe.origin probe)).map Endpoint.tls) probe →
      Made (es ++ [(.poll now, .probes (p.poll now).1)]) probe now := by
    intro probe hprobe
    obtain ⟨until_, hwaiting⟩ := hprobe.waiting
    obtain ⟨e, hget, htls⟩ := Option.map_eq_some_iff.1 hwaiting
    have hreturned := hprobe.returned
    generalize hr : (p.poll now).1 = r at hreturned ⊢
    cases r with
    | error err =>
      exact .inr ⟨es, p, t, err, e, until_, hrun, List.prefix_refl _, hprobe.fresh, hget, htls⟩
    | ok probes =>
      exact .inl ⟨probes, List.mem_append_right _ List.mem_cons_self, hreturned probes rfl⟩
  unfold Policy.poll at hsnoc hmade ⊢
  split
  · next hexplicit =>
    rw [if_pos hexplicit] at hsnoc
    exact hsnoc
  · next hexplicit =>
    rw [if_neg hexplicit] at hsnoc hmade
    exact hsnoc.pollLoop p.endpoints.keys_nodup (Nat.le_refl _) hmade

/-- New resolvers begin without claims, and those that go take theirs with them. By induction on the
resolvers that are added; those that are no longer configured are removed before. -/
theorem AllSound.sync (h : AllSound es p) (origins : List SocketAddr) (explicit : Bool)
    (now : Nat) : AllSound es (p.sync origins explicit now).2 := by
  have hadd : ∀ (l : List SocketAddr) (endpoints : OrdMap SocketAddr Endpoint),
      (∀ origin e, endpoints.get origin = some e → Sound es origin e) →
      ∀ origin e, (l.foldl (Policy.addOrigin now) endpoints).get origin = some e →
        Sound es origin e := by
    intro l
    induction l with
    | nil => exact fun _ h => h
    | cons o l ih =>
      intro endpoints hall
      refine ih _ ?_
      intro origin e hget
      unfold Policy.addOrigin at hget
      split at hget
      · exact hall origin e hget
      · rw [OrdMap.get_insert_eq] at hget
        split at hget
        · cases hget
          exact .new _ _ _
        · exact hall origin e hget
  unfold Policy.sync
  split
  · exact h
  · refine hadd origins _ ?_
    intro origin e hget
    rw [OrdMap.get_retain_lawful, Option.filter_eq_some_iff] at hget
    have hget := hget.1
    split at hget
    · cases hget
    · exact h origin e hget

/-- A report concerns the probe that an endpoint waits for, while there is time for both. The tests
are those of the source, which answers `none` otherwise. -/
theorem reports_eq_some {id now : Nat} {e : Endpoint} {probe : TlsProbe}
    (h : Policy.reports id now e = some probe) :
    ∃ until_, e.tls = .waiting probe until_ ∧ probe.id = id ∧ now < until_ ∧
    now < probe.expires := by
  unfold Policy.reports at h
  split at h
  · next probe' until_ htls =>
    split at h
    · cases h
    · next hok =>
      cases h
      simp only [not_or, not_not, Nat.not_le] at hok
      exact ⟨until_, htls, hok⟩
  · cases h

/-- A report of a connection leaves all endpoints sound: a service is taken into use only if its
probe was made and came back. -/
theorem AllSound.completeTls (h : AllSound es p) (id : Nat) (success : Bool) (now : Nat) :
    AllSound (es ++ [(.completeTls id success now, .nothing)]) (p.completeTls id success now) := by
  have hsnoc : AllSound (es ++ [(.completeTls id success now, .nothing)]) p :=
    h.snoc fun _ _ _ _ heq => nomatch heq
  unfold Policy.completeTls
  split
  · exact hsnoc
  · split
    · exact hsnoc
    · next x probe hfind =>
      obtain ⟨origin, e⟩ := x
      obtain ⟨y, hmem, hy⟩ := List.exists_of_findSome?_eq_some hfind
      obtain ⟨probe', hprobe, heq⟩ := Option.map_eq_some_iff.1 hy
      cases heq
      have hget := OrdMap.mem_iff_get.1 hmem
      have hold := h origin e hget
      have hnew := hsnoc origin e hget
      obtain ⟨until_, htls, hid, huntil, hexpires⟩ := reports_eq_some hprobe
      refine hsnoc.insert ?_ p.sequence
      unfold Policy.settle
      cases success with
      | false => exact hnew.setTls _ fun _ _ h => nomatch h
      | true =>
        refine ⟨hnew.followed, hnew.desired, fun _ _ h => (nomatch h), ?_⟩
        intro t ht
        cases ht
        obtain ⟨horigin, start, hmade, hmin, hground⟩ := hold.tls probe until_ htls
        exact ⟨es, [], probe, start, now, .nothing, by rw [hid], hmade, horigin, rfl, rfl, rfl,
          hmin ▸ huntil, fun _ _ h => (nomatch h), hground⟩

/-- A reported failure leaves all endpoints sound, since the service that failed is given up: an
endpoint that uses it loses it before the failure enters the history, and the other endpoints do not
use it. -/
theorem AllSound.failed (h : AllSound es p) (origin endpoint : SocketAddr) (now : Nat) :
    AllSound (es ++ [(.failed origin endpoint now, .nothing)]) (p.failed origin endpoint now) := by
  have hother : ∀ o e, o ≠ origin → p.endpoints.get o = some e →
      Sound (es ++ [(.failed origin endpoint now, .nothing)]) o e := by
    intro o e hne hget
    refine (h o e hget).snoc fun t _ at_ r heq => hne ?_
    cases heq
    rfl
  unfold Policy.failed
  cases hget : p.endpoints.get origin with
  | none =>
    intro o e ho
    refine hother o e ?_ ho
    rintro rfl
    rw [hget] at ho
    cases ho
  | some e =>
    simp only
    split
    · intro o e' ho
      rw [OrdMap.get_insert_eq] at ho
      split at ho
      · next heq =>
        subst heq
        cases ho
        have hgone : Sound es origin { e with working := none } :=
          ⟨(h origin e hget).followed, (h origin e hget).desired, (h origin e hget).tls,
            fun _ h => nomatch h⟩
        exact (hgone.snoc fun _ h => nomatch h).setTls _ fun _ _ h => nomatch h
      · next hne => exact hother o e' (fun h => hne h.symm) ho
    · next hkeep =>
      intro o e' ho
      cases Classical.em (o = origin) with
      | inl heq =>
        subst heq
        rw [hget] at ho
        cases ho
        refine (h o e hget).snoc fun t ht at_ r heq => hkeep ?_
        cases heq
        rw [ht]
        exact beq_self_eq_true _
      | inr hne => exact hother o e' hne ho

/-- After a name is followed, this is the name that is asked for. -/
theorem asked_push (e : Endpoint) (path : List Name) (name : Name) (aliasExpires : Nat)
    (ddr : DdrState) :
    ({ e with path := path ++ [name], aliasExpires, ddr } : Endpoint).asked = name := by
  show (path ++ [name]).getLastD ddrName = name
  rw [List.getLastD_eq_getLast?, List.getLast?_concat]
  rfl

/-- What is adopted from a reply is founded on it: the services, or the name to follow. An alias
extends the chain of names by one record that the reply holds; a service becomes the desired one,
with an expiry that is bounded by that of the chain. -/
theorem Sound.adopt {origin : SocketAddr} {e : Endpoint} {m : Message} {now : Nat} {q : Question}
    {d : Discovery} (h : Sound es origin e) (hreplied : Replied es origin m now)
    (hq : m.questions = [q]) (hname : (q.name == e.asked) = true) (hd : Founded origin m now q d) :
    Sound es origin (Policy.adopt e d now).2 := by
  unfold Policy.adopt
  split
  · next name expires halias =>
    split
    · exact h.resetDdr
    · obtain ⟨r, hr, params, hsvcb, rfl⟩ := hd.alias_ name expires halias
      refine ⟨?_, h.desired, h.tls, h.working⟩
      rw [asked_push]
      refine .alias_ (h.followed.mono (List.prefix_refl _) (Nat.min_le_left _ _)) hreplied
        ⟨hq, hname⟩ ⟨hr, hsvcb⟩ ?_
      exact Nat.le_trans (Nat.min_le_right _ _) (deadline_le _ _)
  · split
    · exact h.resetDdr
    · next target htarget =>
      have hmem := List.mem_of_head? htarget
      obtain ⟨hlocal, hmerged⟩ := hd.candidates target hmem
      have hdesignated : Designated es origin target.endpoint target.serverName
          (min target.expires e.aliasExpires) := by
        refine ⟨hlocal, m, now, q, e.asked, hreplied, hq, hname,
          h.followed.mono (List.prefix_refl _) (Nat.min_le_right _ _), ?_, ?_⟩
        · obtain ⟨c, hc, hkey⟩ := hmerged.from_ target hmem
          obtain ⟨r, hr, hcand⟩ := List.mem_filterMap.1 hc
          exact ⟨r, hr, c, hcand, hkey⟩
        · intro r hr c hcand hkey
          have hle := hmerged.expires target hmem c (List.mem_filterMap.2 ⟨r, hr, hcand⟩) hkey
          exact (candidate_spec hcand).2.mono (Nat.le_trans (Nat.min_le_left _ _) hle)
      refine ⟨.start, ?_, ?_, h.working⟩
      · intro t ht
        cases ht
        exact hdesignated
      · intro probe until_ htls
        simp only [Endpoint.resetDdr] at htls
        split at htls
        · cases htls
        · exact h.tls probe until_ htls

/-- An answer to the discovery leaves an endpoint sound, whether it is adopted or not. What is
adopted is one of the candidates of the reply (`ddrCandidates_spec`). -/
theorem Sound.answer {origin : SocketAddr} {e : Endpoint} {m : Message} {now : Nat}
    (h : Sound es origin e) (hreplied : Replied es origin m now) (rng : Random) :
    Sound es origin (Policy.answer e origin m now rng).2 := by
  unfold Policy.answer
  simp only
  split
  · next q hq =>
    split
    · exact h.setDdr _
    · next hname =>
      split
      · exact h.setDdr _
      · next d hd =>
        refine (h.setDdr _).adopt hreplied hq ?_ (ddrCandidates_spec hq hd)
        simpa [bne] using hname
  · exact h.setDdr _

/-- Completing a discovery leaves all endpoints sound; the reply is then part of the history. What
was justified before stays so, since the history only grows. -/
theorem AllSound.completeDdr (h : AllSound es p) {t : Nat} (hrun : machine.Run .default 0 es p t)
    (id : Nat) (m : Message) (now : Nat) (rng : Random) :
    AllSound (es ++ [(.completeDdr id m now rng, .done (p.completeDdr id m now rng).1)])
      (p.completeDdr id m now rng).2 := by
  have hsnoc : AllSound (es ++ [(.completeDdr id m now rng,
      .done (p.completeDdr id m now rng).1)]) p := h.snoc fun _ _ _ _ heq => nomatch heq
  generalize hes : es ++ [(Op.completeDdr id m now rng,
    Answer.done (p.completeDdr id m now rng).1)] = es' at hsnoc ⊢
  unfold Policy.completeDdr
  split
  · exact hsnoc
  · split
    · exact hsnoc
    · next origin e hfind =>
      have hget := OrdMap.mem_iff_get.1 (List.mem_of_find?_eq_some hfind)
      have hawaits := List.find?_some hfind
      have hreplied : Replied es' origin m now := by
        refine ⟨es, p, t, id, rng, .done (p.completeDdr id m now rng).1, e, hrun, ?_, hget, hawaits⟩
        simpa only [hes] using List.prefix_refl es'
      exact hsnoc.insert ((hsnoc origin e hget).answer hreplied rng) p.sequence

end Steps

/-- In every run all endpoints are sound. -/
theorem allSound_of_run {es : History} {p : Policy} {t : Nat}
    (h : machine.Run .default 0 es p t) : AllSound es p := by
  refine h.history (I := fun es p _ => AllSound es p) (fun _ _ h => by cases h) ?_
  intro es p t op hrun hp _ _
  cases op with
  | sync origins explicit now =>
    exact (hp.sync origins explicit now).snoc fun _ _ _ _ heq => nomatch heq
  | poll now => exact hp.poll hrun
  | completeTls id success now => exact hp.completeTls id success now
  | failed origin endpoint now => exact hp.failed origin endpoint now
  | completeDdr id m now rng => exact hp.completeDdr hrun id m now rng

/-- A probe goes to the address of the resolver that designated the service. -/
theorem Grounded.ip {es : History} {origin : SocketAddr} {probe : TlsProbe} {now : Nat}
    (h : Grounded es origin probe now) : probe.endpoint.ip = origin.ip := by
  obtain ⟨hend, -⟩ | ⟨-, m, at_, q, name, -, -, -, -, ⟨r, -, d, hcand, hkey⟩, -⟩ := h
  · rw [hend]
  · rw [← (candidate_spec hcand).1, ← (Prod.mk.inj hkey).1]

/-- What a route over TLS rests on. -/
def Safe (sent : History → TlsProbe → Nat → Prop) (es : History) (p : Policy)
    (origin : SocketAddr) (now : Nat) (t : Designation) : Prop :=
  p.explicit = false ∧ t.endpoint.ip = origin.ip ∧ now < t.expires ∧ Justified es origin sent t

/-- A route over TLS is justified by the run. The designation of the route is the one that works at
its endpoint, and what works there is justified by the invariant of all runs. -/
theorem route_justified {es : History} {p : Policy} {last : Nat}
    (h : machine.Run .default 0 es p last) {origin : SocketAddr} {now : Nat} {t : Designation}
    (hr : p.route origin now = .tls t) : Safe Made es p origin now t := by
  unfold Policy.route at hr
  split at hr
  · cases hr
  · next hexplicit =>
    split at hr
    · cases hr
    · next e hget =>
      split at hr
      · next hworking =>
        cases hr
        rw [Option.filter_eq_some_iff] at hworking
        have hjust := (allSound_of_run h origin e hget).working t hworking.1
        refine ⟨Bool.eq_false_iff.2 hexplicit, ?_, of_decide_eq_true hworking.2, hjust⟩
        obtain ⟨_, _, probe, _, _, _, _, _, _, hend, _, _, _, _, hground⟩ := hjust
        rw [← hend]
        exact hground.ip
      · cases hr

/-! ## The run of a home network -/

/-- The resolver of a home network. -/
def homeOrigin : SocketAddr := ⟨.v4 ⟨[192, 168, 0, 1], rfl⟩, 53, 0, 0⟩

/-- A policy without origins, after some probes. -/
def emptied (n : Nat) : Policy := ⟨.empty, n, false⟩

/-- A policy that has just got an origin. -/
def started (n : Nat) : Policy := ⟨OrdMap.empty.insert homeOrigin (.new 0), n, false⟩

/-- The probe that a new origin is tried with. -/
def homeProbe (id : Nat) : TlsProbe :=
  (Endpoint.new 0).tlsProbe homeOrigin 0 id

/-- An origin that waits for its probe. -/
def waitingEndpoint (id : Nat) : Endpoint :=
  { Endpoint.new 0 with tls := .waiting (homeProbe id) 10000 }

/-- The first poll of a new endpoint makes one probe, with the next number. -/
theorem pollTls_new {n : Nat} (h : n ≠ u64Max) :
    (Endpoint.new 0).pollTls homeOrigin 0 n =
      (.ok [.tls (homeProbe (n + 1))], waitingEndpoint (n + 1), n + 1) := by
  have hdue : (Endpoint.new 0).tls = .due 0 := rfl
  rw [Endpoint.pollTls, hdue]
  simp only
  rw [if_pos (Nat.le_refl _), if_neg h]
  rfl

/-- While that probe is out, the discovery is asked with the number after it. -/
theorem pollDdr_waiting {n : Nat} (h : n + 1 ≠ u64Max) :
    (waitingEndpoint (n + 1)).pollDdr homeOrigin 0 (n + 1) =
      (.ok [.ddr ⟨n + 2, homeOrigin, ddrName⟩],
        { waitingEndpoint (n + 1) with ddr := .waiting (n + 2) 3000 }, n + 2) := by
  have hdue : (waitingEndpoint (n + 1)).ddr = .due 0 := rfl
  rw [Endpoint.pollDdr, hdue]
  simp only
  rw [if_pos (Nat.le_refl _), if_neg h]
  rfl

/-- The first poll after the start makes both, and the endpoint waits for both. The two numbers are
drawn in turn, which needs room below the greatest number. -/
theorem poll_started {n : Nat} (h : n + 2 ≤ u64Max) :
    (started n).poll 0 =
      (.ok [.tls (homeProbe (n + 1)), .ddr ⟨n + 2, homeOrigin, ddrName⟩],
        ⟨OrdMap.empty.insert homeOrigin
          { waitingEndpoint (n + 1) with ddr := .waiting (n + 2) 3000 }, n + 2, false⟩) := by
  have htimers : ((((Endpoint.new 0).lapse 0).tlsTimer 0).ddrTimer 0) = .new 0 := rfl
  have hpoll : (Endpoint.new 0).poll homeOrigin 0 n =
      (.ok [.tls (homeProbe (n + 1)), .ddr ⟨n + 2, homeOrigin, ddrName⟩],
        { waitingEndpoint (n + 1) with ddr := .waiting (n + 2) 3000 }, n + 2) := by
    rw [Endpoint.poll, htimers, pollTls_new (by omega)]
    simp only
    rw [pollDdr_waiting (by omega)]
    rfl
  have hkeys : (started n).endpoints.keys = [homeOrigin] := rfl
  have hget : (started n).endpoints.get homeOrigin = some (.new 0) := rfl
  have hexplicit : (started n).explicit = false := rfl
  have hsequence : (started n).sequence = n := rfl
  rw [Policy.poll, hexplicit, if_neg (by decide), hkeys, Policy.pollLoop, hget]
  simp only
  rw [hsequence, hpoll]
  rfl

/-- The theorem applied to a resolver whose own port is probed: the probe succeeds, and queries go
there. -/
theorem route_justified_home :
    ∃ es p t, machine.Run .default 0 es p 1 ∧ p.route homeOrigin 2 = .tls t ∧
      Safe Made es p homeOrigin 2 t := by
  have hrun : machine.Run .default 0 [] .default 0 := .nil
  have hsync : machine.step .default (.sync [homeOrigin] false 0) =
    (started 0, .done (.ok ())) := rfl
  have hdone := ((hrun.step hsync (Nat.le_refl _) trivial).step (o := .poll 0) rfl (Nat.le_refl _)
    trivial).step (o := .completeTls 1 true 1) rfl (Nat.zero_le _) trivial
  exact ⟨_, _, _, hdone, rfl, route_justified hdone rfl⟩

/-- Only probes with ids up to `n` were emitted, and none was reported. -/
def Unreported (n : Nat) (es : History) : Prop :=
  (∀ probe now, Emitted es probe now → probe.id ≤ n) ∧
    ∀ id success now r, (.completeTls id success now, r) ∉ es

/-- A probe that was sent in one of two histories was sent in the joined one. -/
theorem emitted_append {es es' : History} {probe : TlsProbe} {now : Nat}
    (h : Emitted (es ++ es') probe now) : Emitted es probe now ∨ Emitted es' probe now := by
  obtain ⟨probes, hmem, hprobe⟩ := h
  cases List.mem_append.1 hmem with
  | inl hmem => exact .inl ⟨probes, hmem, hprobe⟩
  | inr hmem => exact .inr ⟨probes, hmem, hprobe⟩

/-- No probe is reported early if the new event reports none and makes none with a greater
number. -/
theorem Unreported.snoc {n n' : Nat} {es : History} {x : Op × Answer} (h : Unreported n es)
    (hn : n ≤ n') (hemit : ∀ probe now, Emitted [x] probe now → probe.id ≤ n')
    (hreport : ∀ id success now r, (.completeTls id success now, r) ≠ x) :
    Unreported n' (es ++ [x]) := by
  constructor
  · intro probe now hprobe
    cases emitted_append hprobe with
    | inl hprobe => exact Nat.le_trans (h.1 probe now hprobe) hn
    | inr hprobe => exact hemit probe now hprobe
  · intro id success now r hmem
    cases List.mem_append.1 hmem with
    | inl hmem => exact h.2 id success now r hmem
    | inr hmem => exact hreport id success now r (List.mem_singleton.1 hmem)

/-- Setting the resolvers again reports nothing. -/
theorem Unreported.sync {n : Nat} {es : History} (h : Unreported n es) (origins : List SocketAddr) :
    Unreported n (es ++ [(.sync origins false 0, .done (.ok ()))]) := by
  refine h.snoc (Nat.le_refl _) ?_ fun _ _ _ _ heq => nomatch heq
  rintro probe now ⟨probes, hmem, -⟩
  cases List.mem_singleton.1 hmem

/-- Origins that come and go use up the ids. By induction: each turn configures an origin, polls it
for two probes, and removes it again. -/
theorem run_emptied (n : Nat) (h : 2 * n ≤ u64Max) :
    ∃ es, machine.Run .default 0 es (emptied (2 * n)) 0 ∧ Unreported (2 * n) es := by
  induction n with
  | zero => exact ⟨[], .nil, fun _ _ ⟨_, h, _⟩ => (nomatch h), fun _ _ _ _ h => (nomatch h)⟩
  | succ n ih =>
    obtain ⟨es, hrun, hes⟩ := ih (by omega)
    have hsync : machine.step (emptied (2 * n)) (.sync [homeOrigin] false 0) =
      (started (2 * n), .done (.ok ())) := rfl
    have hpoll : machine.step (started (2 * n)) (.poll 0) =
        (⟨OrdMap.empty.insert homeOrigin { waitingEndpoint (2 * n + 1) with
            ddr := .waiting (2 * n + 2) 3000 }, 2 * n + 2, false⟩,
          .probes (.ok [.tls (homeProbe (2 * n + 1)),
            .ddr ⟨2 * n + 2, homeOrigin, ddrName⟩])) := by
      simp only [machine]
      rw [poll_started (by omega)]
    refine ⟨_, ((hrun.step hsync (Nat.le_refl _) trivial).step hpoll (Nat.le_refl _) trivial).step
      (o := .sync [] false 0) rfl (Nat.le_refl _) trivial, ?_⟩
    refine ((hes.sync _).snoc (Nat.le_add_right _ 2) ?_ ?_).sync _
    · rintro probe now ⟨probes, hmem, hprobe⟩
      cases List.mem_singleton.1 hmem
      cases List.mem_cons.1 hprobe with
      | inl heq =>
        cases heq
        exact Nat.le_succ _
      | inr hprobe => cases List.mem_singleton.1 hprobe
    · intro _ _ _ _ heq
      cases heq

/-- The probe that took the last id was not returned, but its success counts. The TLS side takes
that id and waits for its probe; the DDR side then finds no id, so that the poll fails as a whole.
When a success of the probe is reported, the endpoint is routed over TLS although nothing was
emitted. -/
theorem route_not_emitted : ¬ ∀ es p last, machine.Run .default 0 es p last →
    ∀ origin now t, last ≤ now → p.route origin now = .tls t → Safe Emitted es p origin now t := by
  intro hclaim
  obtain ⟨es, hrun, hes⟩ := run_emptied (2 ^ 63 - 1) (by decide)
  have hsync : machine.step (emptied (2 * (2 ^ 63 - 1))) (.sync [homeOrigin] false 0) =
    (started (u64Max - 1), .done (.ok ())) := rfl
  have hpoll : machine.step (started (u64Max - 1)) (.poll 0) =
    (⟨OrdMap.empty.insert homeOrigin (waitingEndpoint u64Max), u64Max, false⟩,
      .probes (.error invalid)) := rfl
  have hdone := ((hrun.step hsync (Nat.le_refl _) trivial).step hpoll (Nat.le_refl _) trivial).step
    (o := .completeTls u64Max true 1) rfl (Nat.zero_le _) trivial
  have hquiet : Unreported (u64Max - 1) (es ++ [(.sync [homeOrigin] false 0, .done (.ok ()))] ++
      [(.poll 0, .probes (.error invalid))]) := by
    refine (hes.sync _).snoc (Nat.le_refl _) ?_ ?_
    · rintro probe now ⟨probes, hmem, -⟩
      cases List.mem_singleton.1 hmem
    · intro _ _ _ _ heq
      cases heq
  obtain ⟨-, -, -, before, after, probe, start, now, r, heq, hemit, -⟩ :=
    hclaim _ _ _ hdone homeOrigin 2 _ (by decide) rfl
  have hid : probe.id = u64Max := by
    have hmem : (Op.completeTls probe.id true now, r) ∈ before ++ (_, r) :: after :=
      List.mem_append_right _ List.mem_cons_self
    rw [← heq] at hmem
    cases List.mem_append.1 hmem with
    | inl hmem => exact absurd hmem (hquiet.2 _ _ _ _)
    | inr hmem => exact (Op.completeTls.inj (Prod.mk.inj (List.mem_singleton.1 hmem)).1).1
  have hless : probe.id ≤ u64Max - 1 := by
    have hall : Emitted (before ++ (.completeTls probe.id true now, r) :: after) probe start := by
      obtain ⟨probes, hmem, hprobe⟩ := hemit
      exact ⟨probes, List.mem_append_left _ hmem, hprobe⟩
    rw [← heq] at hall
    cases emitted_append hall with
    | inl hall => exact hquiet.1 probe start hall
    | inr hall =>
      obtain ⟨probes, hmem, -⟩ := hall
      cases List.mem_singleton.1 hmem
  rw [hid] at hless
  exact absurd hless (by decide)

end SnacMachine.Dns.Privacy
