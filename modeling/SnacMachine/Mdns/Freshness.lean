import SnacMachine.Mdns.Owners

/-!
# Freshness of answers

What a question finds in the cache (`mdns/cache.rs`) was heard: in every run, an answer is a record
of a message that came less than the record's lifetime ago, and the lifetime in the answer is what
is left of it, rounded up to the second (`Cache.answers_heard`). A record that is withdrawn is not
answered from a second later on, until a message holds it again (`Cache.goodbye_silences`).
-/

namespace SnacMachine.Mdns

open Dns

/-- Which of two records that are the same is named first does not matter. -/
theorem same_symm {a b : Record} (h : same a b = true) : same b a = true := by
  simp only [same, Bool.and_eq_true, beq_iff_eq] at h ⊢
  obtain ⟨⟨⟨hname, hkind⟩, hcls⟩, hdata⟩ := h
  exact ⟨⟨⟨PartialEquivBEq.symm hname, hkind.symm⟩, hcls.symm⟩, PartialEquivBEq.symm hdata⟩

/-- Records that are the same as a third one are the same. -/
theorem same_trans {a b c : Record} (h : same a b = true) (h' : same b c = true) :
    same a c = true := by
  simp only [same, Bool.and_eq_true, beq_iff_eq] at h h' ⊢
  obtain ⟨⟨⟨hname, hkind⟩, hcls⟩, hdata⟩ := h
  obtain ⟨⟨⟨hname', hkind'⟩, hcls'⟩, hdata'⟩ := h'
  exact ⟨⟨⟨PartialEquivBEq.trans hname hname', hkind.trans hkind'⟩, hcls.trans hcls'⟩,
    PartialEquivBEq.trans hdata hdata'⟩

namespace Cache

/-! ## Where records come from -/

/-- A record that was stored out of a list at some moment. -/
def Learned (now : Nat) (rs : List Record) (b : Entry) : Prop :=
  ∃ r ∈ rs, r.ttl ≠ 0 ∧ ∃ (stamp : Option Stamp) (a : Entry), a.Stored now stamp r ∧ a.Aged b

/-- What ages a learned entry was learned as well. -/
theorem Learned.aged {now : Nat} {rs : List Record} {a b : Entry} (h : Learned now rs a)
    (hab : a.Aged b) : Learned now rs b := by
  obtain ⟨r, hr, httl, stamp, x, hx, hxa⟩ := h
  exact ⟨r, hr, httl, stamp, x, hx, hxa.trans hab⟩

/-- What was learned from some records was learned from more of them. -/
theorem Learned.mono {now : Nat} {rs rs' : List Record} {b : Entry} (h : Learned now rs b)
    (hsub : ∀ r ∈ rs, r ∈ rs') : Learned now rs' b := by
  obtain ⟨r, hr, hrest⟩ := h
  exact ⟨r, hsub r hr, hrest⟩

/-- What the cache holds after storing records was there before, or was learned from them; the
induction is on the records. -/
theorem mem_storeAll {m : Message} {s : Selection} {now : Nat} {rng : Random}
    {rs : List (Record × Nat)} {n : Nat} {c : Cache} :
    ∀ b ∈ (storeAll m s now rng rs n c).2.entries,
      (∃ a ∈ c.entries, a.Aged b) ∨ Learned now (rs.map Prod.fst) b := by
  induction rs generalizing n c with
  | nil => exact fun b hb => .inl ⟨b, hb, .refl b⟩
  | cons x rs ih =>
    -- What the rest of the loop makes of a cache that holds nothing but old records and this one.
    have rest : ∀ {n : Nat} {c' : Cache},
        (∀ a ∈ c'.entries, (∃ a' ∈ c.entries, a'.Aged a) ∨ Learned now ((x :: rs).map Prod.fst) a) →
        ∀ b ∈ (storeAll m s now rng rs n c').2.entries,
          (∃ a ∈ c.entries, a.Aged b) ∨ Learned now ((x :: rs).map Prod.fst) b := by
      intro n c' hc' b hb
      rcases ih b hb with ⟨a, ha, hab⟩ | hnew
      · rcases hc' a ha with ⟨a', ha', haa⟩ | hold
        · exact .inl ⟨a', ha', haa.trans hab⟩
        · exact .inr (hold.aged hab)
      · exact .inr (hnew.mono fun r hr => List.mem_cons_of_mem _ hr)
    have same : ∀ a ∈ c.entries,
        (∃ a' ∈ c.entries, a'.Aged a) ∨ Learned now ((x :: rs).map Prod.fst) a :=
      fun a ha => .inl ⟨a, ha, .refl a⟩
    unfold storeAll
    split
    · exact rest same
    · split
      · exact rest fun a ha => .inl (traced_goodbye c now x.1 a ha)
      · next httl =>
        split
        · exact rest same
        · dsimp only
          split
          · exact same
          · refine rest fun a ha => ?_
            rcases mem_store a ha with hold | hnew
            · exact .inl hold
            · exact .inr ⟨x.1, List.mem_cons_self, httl, _, a, hnew, .refl a⟩

/-- Deciding on the owner of a name adds no entry. Every branch leaves the cache alone or removes
what the owner has. -/
theorem traced_owner (m : Message) (stamps : OrdMap Name Stamp) (now : Nat) (s : Selection)
    (e : Record × Nat) : Traced s.cache (s.owner m stamps now e).cache := by
  unfold Selection.owner
  split
  · exact .refl _
  · dsimp only
    split
    · exact .refl _
    · split
      · exact .refl _
      · exact traced_removeOwner _ _
      · exact traced_removeOwner _ _
      · exact .refl _
      · exact .refl _

/-- Deciding on all owners of a message adds no entry. -/
theorem traced_foldl_owner (m : Message) (stamps : OrdMap Name Stamp) (now : Nat)
    (es : List (Record × Nat)) (s : Selection) :
    Traced s.cache (es.foldl (Selection.owner m stamps now) s).cache := by
  induction es generalizing s with
  | nil => exact .refl _
  | cons e es ih => exact (traced_owner m stamps now s e).trans (ih _)

/-- The records after a message: those that were there, and records of the message. The message is
refused, or its stamps decide which of its records are stored. -/
theorem mem_receive {c : Cache} {m : Message} {code : UInt16} {now : Nat} {rng : Random} :
    ∀ b ∈ (c.receive m code now rng).2.entries,
      (∃ a ∈ c.entries, a.Aged b) ∨ Learned now m.records b := by
  unfold Cache.receive
  split
  · exact fun b hb => .inl ⟨b, hb, .refl b⟩
  · dsimp only
    split
    · exact fun b hb => .inl (traced_expire c now b hb)
    · next stamps _ =>
      intro b hb
      rcases mem_storeAll b hb with ⟨a, ha, hab⟩ | hnew
      · obtain ⟨a', ha', haa⟩ := (traced_expire c now).trans
          (traced_foldl_owner m stamps now m.records.zipIdx ⟨c.expire now, .empty, .empty⟩) a ha
        exact .inl ⟨a', ha', haa.trans hab⟩
      · rw [List.zipIdx_map_fst] at hnew
        exact .inr hnew

/-- The records after any operation. One case for each operation; only receiving a message adds
records. -/
theorem mem_perform {c : Cache} {now : Nat} {o : Op} : ∀ b ∈ (c.perform now o).entries,
    (∃ a ∈ c.entries, a.Aged b) ∨
      ∃ m code rng, o = .receive m code rng ∧ Learned now m.records b := by
  intro b hb
  cases o with
  | receive m code rng =>
    exact (mem_receive b hb).imp_right fun h => ⟨m, code, rng, rfl, h⟩
  | expire => exact .inl (traced_expire c now b hb)
  | removeOwner name => exact .inl (traced_removeOwner c name b hb)
  | clear => exact absurd hb List.not_mem_nil
  | reserve bytes => exact .inl (traced_reserve c bytes b hb)
  | answers q => exact .inl (traced_touch c _ now b hb)
  | known q => exact .inl (traced_touch c _ now b hb)
  | refreshed q => exact .inl (traced_refreshed c q now b hb)
  | suspect q => exact .inl (traced_suspect c q now b hb)
  | observeQuestion q known => exact .inl (traced_observeQuestion c q known now b hb)

/-! ## Answers -/

/-- A record that was heard in some message of a run. -/
structure Heard (es : List ((Op × Nat) × Unit)) (t : Nat) (e : Entry) (m : Message) (r : Record) :
    Prop where
  event : ∃ code rng, ((.receive m code rng, e.received), ()) ∈ es
  past : e.received ≤ t
  member : r ∈ m.records
  same : same e.record r = true
  lifetime : r.ttl ≠ 0
  expires : e.expires ≤ e.received + r.ttl.toNat * 1000

/-- In every run, what the cache holds was heard in a message of the run. By induction on the run
(`Run.history`): an entry after a step is one from before, not older than it was, or was stored from
a record of the message that the step has taken. -/
theorem heard_of_run {es : List ((Op × Nat) × Unit)} {c : Cache} {t₀ t : Nat}
    (h : machine.Run new t₀ es c t) : ∀ e ∈ c.entries, ∃ m r, Heard es t e m r := by
  refine h.history (I := fun es c t => ∀ e ∈ c.entries, ∃ m r, Heard es t e m r) ?_ ?_
  · intro e he
    exact absurd he List.not_mem_nil
  · intro es c t o _ hc hle _ b hb
    rcases mem_perform b hb with ⟨a, ha, hab⟩ | ⟨m, code, rng, ho, r, hr, httl, stamp, a, ha, hab⟩
    · obtain ⟨m, r, hheard⟩ := hc a ha
      obtain ⟨code, rng, hevent⟩ := hheard.event
      have hexpires := hheard.expires
      refine ⟨m, r, ⟨code, rng, ?_⟩, ?_, hheard.member, ?_, hheard.lifetime, ?_⟩
      · rw [hab.received]
        exact List.mem_append_left _ hevent
      · rw [hab.received]
        exact hheard.past.trans hle
      · rw [hab.record]
        exact hheard.same
      · rw [hab.received]
        exact hab.expires.trans hexpires
    · have hreceived : b.received = o.2 := hab.received.trans ha.received
      refine ⟨m, r, ⟨code, rng, ?_⟩, ?_, hr, ?_, httl, ?_⟩
      · rw [hreceived, ← ho]
        exact List.mem_append_right _ List.mem_cons_self
      · exact Nat.le_of_eq hreceived
      · rw [hab.record]
        exact ha.same
      · have hmin : (min r.ttl 0x7fffffff).toNat ≤ r.ttl.toNat := by
          rw [UInt32.min_def]
          split
          · exact Nat.le_refl _
          · next hlt =>
            rw [UInt32.le_iff_toNat_le] at hlt
            exact Nat.le_of_lt (Nat.lt_of_not_le hlt)
        have hsat := satAdd_le o.2 ((min r.ttl 0x7fffffff).toNat * 1000)
        have hexpires := hab.expires
        rw [ha.expires] at hexpires
        rw [hreceived]
        exact (hexpires.trans hsat).trans (Nat.add_le_add_left (Nat.mul_le_mul_right _ hmin) _)

/-- An entry is answered with no longer than it lives. -/
theorem deadline_le (e : Entry) : e.deadline ≤ e.expires := by
  unfold Entry.deadline
  split
  · exact Nat.le_refl _
  · exact Nat.min_le_left _ _

/-- The lifetime in an answer is what is left, rounded up. -/
theorem remaining_ttl {deadline now : Nat} (h : now < deadline) :
    now + (UInt32.ofNat (min ((deadline - now + 999) / 1000) 4294967295)).toNat * 1000 <
      deadline + 1000 := by
  have hofNat : (UInt32.ofNat (min ((deadline - now + 999) / 1000) 4294967295)).toNat =
      min ((deadline - now + 999) / 1000) 4294967295 := by
    rw [UInt32.toNat_ofNat']
    exact Nat.mod_eq_of_lt (by omega)
  rw [hofNat]
  omega

/-- Masking the class twice is masking it once. -/
theorem masked_cls (cls : UInt16) : cls &&& 0x7fff &&& 0x7fff = cls &&& 0x7fff := by
  rw [UInt16.and_assoc, UInt16.and_self]

/-- The flag of the class and the lifetime do not matter for what a record is. -/
theorem alike_masked (r : Record) (ttl : UInt32) :
    Alike r { r with cls := r.cls &&& 0x7fff, ttl } :=
  ⟨rfl, rfl, rfl, masked_cls r.cls⟩

/-- In every run, an answer is a record of a message that came less than the record's lifetime ago;
what is left of the lifetime is in the answer, rounded up to the second. -/
theorem answers_heard {es : List ((Op × Nat) × Unit)} {c : Cache} {t₀ t : Nat}
    (h : machine.Run new t₀ es c t) (q : Question) (now : Nat) :
    ∀ a ∈ c.answers q now, matches_ q a = true ∧
      ∃ m code rng received r, ((Op.receive m code rng, received), ()) ∈ es ∧ received ≤ t ∧
        r ∈ m.records ∧ same a r = true ∧ now < received + r.ttl.toNat * 1000 ∧
        now + a.ttl.toNat * 1000 < received + r.ttl.toNat * 1000 + 1000 := by
  intro a ha
  obtain ⟨e, he, rfl⟩ := List.mem_map.1 ha
  obtain ⟨hmem, hcond⟩ := List.mem_filter.1 he
  rw [Bool.and_eq_true] at hcond
  have hlive := of_decide_eq_true hcond.1
  obtain ⟨m, r, hheard⟩ := heard_of_run h e hmem
  obtain ⟨code, rng, hevent⟩ := hheard.event
  have hdeadline := (deadline_le e).trans hheard.expires
  refine ⟨?_, m, code, rng, e.received, r, hevent, hheard.past, hheard.member, ?_, ?_, ?_⟩
  · have hmatches := hcond.2
    simp only [matches_, masked_cls] at hmatches ⊢
    exact hmatches
  · exact same_of_alike (alike_masked e.record _) hheard.same
  · omega
  · have httl := remaining_ttl hlive
    show now + (UInt32.ofNat _).toNat * 1000 < _
    omega

/-- The question for the addresses of the host. -/
def hostQuestion : Question := ⟨hostName, 1, 1⟩

/-- The theorem applied to a host that was announced and is asked for: its answer comes from the
announcement. -/
theorem answers_heard_host : ∃ es c, machine.Run new 0 es c 5 ∧
    (c.answers hostQuestion 70005).length = 1 ∧
    ∀ a ∈ c.answers hostQuestion 70005, matches_ hostQuestion a = true ∧
      ∃ m code rng received r, ((Op.receive m code rng, received), ()) ∈ es ∧ received ≤ 5 ∧
        r ∈ m.records ∧ same a r = true ∧ 70005 < received + r.ttl.toNat * 1000 ∧
        70005 + a.ttl.toNat * 1000 < received + r.ttl.toNat * 1000 + 1000 := by
  have hrun : machine.Run new 0 _ _ 5 :=
    Machine.Run.nil.snoc (m := machine) (.receive hostAnnouncement 65002 fun _ _ => .ok 0, 5)
      (Nat.zero_le 5) trivial
  exact ⟨_, _, hrun, by decide +kernel, answers_heard hrun hostQuestion 70005⟩

/-! ## Withdrawn records -/

/-- A record lives until some moment at most. -/
def Silent (r : Record) (until_ : Nat) (c : Cache) : Prop :=
  ∀ e ∈ c.entries, same e.record r = true → e.expires ≤ until_

/-- No record of a list brings a record to life. -/
def Quiet (r : Record) (rs : List Record) : Prop := ∀ x ∈ rs, x.ttl ≠ 0 → same x r = false

section
variable {r : Record} {until_ : Nat}

/-- Silence is kept where nothing but older entries and quiet records come in. -/
theorem Silent.of_mem {rs : List Record} {now : Nat} {c c' : Cache} (hc : Silent r until_ c)
    (hrs : Quiet r rs) (h : ∀ b ∈ c'.entries, (∃ a ∈ c.entries, a.Aged b) ∨ Learned now rs b) :
    Silent r until_ c' := by
  intro b hb hsame
  rcases h b hb with ⟨a, ha, hab⟩ | ⟨x, hx, httl, stamp, a, ha, hab⟩
  · rw [hab.record] at hsame
    exact hab.expires.trans (hc a ha hsame)
  · rw [hab.record] at hsame
    have hxr := same_trans (same_symm ha.same) hsame
    rw [hrs x hx httl] at hxr
    cases hxr

/-- Silence is kept by every operation, as long as no message brings the record back. A record after
the operation is an old one that lives no longer, or was in the message. -/
theorem Silent.perform {c : Cache} (hc : Silent r until_ c) {now : Nat} {o : Op}
    (ho : ∀ m code rng, o = .receive m code rng → Quiet r m.records) :
    Silent r until_ (c.perform now o) := by
  intro b hb hsame
  rcases mem_perform b hb with ⟨a, ha, hab⟩ | ⟨m, code, rng, hreceive, hnew⟩
  · rw [hab.record] at hsame
    exact hab.expires.trans (hc a ha hsame)
  · obtain ⟨x, hx, httl, stamp, a, ha, hab⟩ := hnew
    rw [hab.record] at hsame
    have hxr := same_trans (same_symm ha.same) hsame
    rw [ho m code rng hreceive x hx httl] at hxr
    cases hxr

end

/-- A withdrawn record lives for a second. Its entry is marked to end then, and an entry that ends
at a moment gives no answer from it on. -/
theorem silent_goodbye {c : Cache} (hc : c.Sound) (now : Nat) (r : Record) :
    Silent r (satAdd now 1000) { c with sets := c.sets.modify (key r) fun set => { set with
      records := set.records.map fun e => if same e.record r then e.endSoon now else e } } := by
  intro e he hsame
  obtain ⟨x, hx, hex⟩ := mem_entries.1 he
  obtain ⟨s, hs, heq⟩ := OrdMap.mem_entries_mapValues.1 hx
  rw [heq] at hex
  split at hex
  · obtain ⟨a, ha, rfl⟩ := List.mem_map.1 hex
    split at hsame
    · next ha' =>
      rw [if_pos ha']
      exact Nat.min_le_right _ _
    · next ha' => exact absurd hsame ha'
  · next hkey =>
    exact absurd (((hc.sets _ hs).keys e hex).symm.trans (key_of_same hsame)) hkey

/-- Storing a record that ends its lifetime silences it, if no other record of the message brings it
back; the induction is on the records. -/
theorem storeAll_silences {m : Message} {s : Selection} {now : Nat} {rng : Random} {r : Record}
    {i : Nat} (hskip : skipped m (r, i) = false) (hignored : s.ignored.contains r.name = false)
    (httl : r.ttl = 0) {rs : List (Record × Nat)} {n : Nat} {c : Cache} (hc : c.Sound)
    (hok : (storeAll m s now rng rs n c).1 = .ok ()) (hr : (r, i) ∈ rs)
    (hquiet : Quiet r (rs.map Prod.fst)) :
    Silent r (satAdd now 1000) (storeAll m s now rng rs n c).2 := by
  induction rs generalizing n c with
  | nil => exact absurd hr List.not_mem_nil
  | cons x rs ih =>
    have hrest : Quiet r (rs.map Prod.fst) := fun y hy => hquiet y (List.mem_cons_of_mem _ hy)
    rcases List.mem_cons.1 hr with rfl | hr
    · have hnot : ¬ (!cacheable r || s.ignored.contains r.name ||
          (m.flags &&& 0x8000 == 0 && decide (i < m.answers.length + m.authority.length))) =
          true := by
        unfold skipped at hskip
        rw [Bool.or_eq_false_iff] at hskip
        rw [hignored, hskip.1, hskip.2]
        decide
      unfold storeAll at hok ⊢
      rw [if_neg hnot, if_pos httl]
      exact (silent_goodbye hc now r).of_mem hrest mem_storeAll
    · unfold storeAll at hok ⊢
      split at hok
      · next hpass =>
        rw [if_pos hpass]
        exact ih hc hok hr hrest
      · next hpass =>
        rw [if_neg hpass]
        split at hok
        · next hzero =>
          rw [if_pos hzero]
          refine ih ?_ hok hr hrest
          refine hc.modify (key x.1) fun set => Entry.becomes_map (fun e => ?_) set.records
          split
          · exact Entry.becomes_endSoon now e
          · exact .refl e
        · next hzero =>
          rw [if_neg hzero]
          split at hok
          · exact ih hc hok hr hrest
          · next cost hcost =>
            dsimp only at hok ⊢
            split at hok
            · cases hok
            · refine ih (hc.store ⟨?_, hzero, charge_bounds hcost, rfl⟩ now _) hok hr hrest
              cases hcacheable : cacheable x.1 with
              | true => rfl
              | false => simp [hcacheable] at hpass

/-- Whether a message is ignored for an owner, whose records are newer. -/
def ignores (c : Cache) (m : Message) (code : UInt16) (now : Nat) (name : Name) : Bool :=
  match extract m code now with
  | .error _ => false
  | .ok stamps => (m.records.zipIdx.foldl (Selection.owner m stamps now)
      ⟨c.expire now, .empty, .empty⟩).ignored.contains name

/-- Receiving a goodbye silences its record, if the name is not ignored and the same message does
not bring it back. -/
theorem receive_silences {c : Cache} (hc : c.Sound) {m : Message} {code : UInt16} {now : Nat}
    {rng : Random} (hok : (c.receive m code now rng).1 = .ok ()) {r : Record} {i : Nat}
    (hr : (r, i) ∈ m.records.zipIdx) (httl : r.ttl = 0) (hskip : skipped m (r, i) = false)
    (hignored : c.ignores m code now r.name = false) (hquiet : Quiet r m.records) :
    Silent r (satAdd now 1000) (c.receive m code now rng).2 := by
  unfold Cache.receive at hok ⊢
  split at hok
  · cases hok
  · next hlen =>
    rw [if_neg hlen]
    dsimp only at hok ⊢
    unfold ignores at hignored
    split at hok
    · cases hok
    · next stamps hstamps =>
      rw [hstamps] at hignored
      refine storeAll_silences hskip hignored httl (Sound.foldl_owner (hc.expire now)) hok hr ?_
      rw [List.zipIdx_map_fst]
      exact hquiet

/-- In every run, a record that a message withdraws, and is not ignored for, is not answered from a
second later on, until a message holds it again. -/
theorem goodbye_silences {es₀ : List ((Op × Nat) × Unit)} {c : Cache} {t₀ t₁ : Nat}
    (h : machine.Run new t₀ es₀ c t₁) {m : Message} {code : UInt16} {now : Nat} {rng : Random}
    (hok : (c.receive m code now rng).1 = .ok ()) {r : Record} {i : Nat}
    (hr : (r, i) ∈ m.records.zipIdx) (httl : r.ttl = 0) (hskip : skipped m (r, i) = false)
    (hignored : c.ignores m code now r.name = false) (hquiet : Quiet r m.records)
    {es : List ((Op × Nat) × Unit)} {c' : Cache} {t : Nat}
    (hrun : machine.Run (c.receive m code now rng).2 now es c' t)
    (hlater : ∀ o ∈ es, ∀ m code rng, o.1.1 = .receive m code rng → Quiet r m.records)
    (q : Question) {moment : Nat} (hmoment : now + 1000 ≤ moment) :
    ∀ a ∈ c'.answers q moment, same a r = false := by
  have hsilent : (∀ o ∈ es, ∀ m code rng, o.1.1 = Op.receive m code rng → Quiet r m.records) →
      Silent r (satAdd now 1000) c' := by
    refine hrun.history (I := fun es c _ =>
      (∀ o ∈ es, ∀ m code rng, o.1.1 = Op.receive m code rng → Quiet r m.records) →
        Silent r (satAdd now 1000) c) ?_ ?_
    · exact fun _ => receive_silences (Sound.run h) hok hr httl hskip hignored hquiet
    · intro es c t o _ ih _ _ hes
      have hbefore := ih fun x hx => hes x (List.mem_append_left _ hx)
      have ho := hes (o, ()) (List.mem_append_right _ List.mem_cons_self)
      exact hbefore.perform ho
  intro a ha
  obtain ⟨e, he, rfl⟩ := List.mem_map.1 ha
  obtain ⟨hmem, hcond⟩ := List.mem_filter.1 he
  rw [Bool.and_eq_true] at hcond
  have hlive := of_decide_eq_true hcond.1
  refine ((alike_masked e.record _).same (Alike.refl r)).trans ?_
  cases hsame : same e.record r with
  | false => rfl
  | true =>
    have hexpires := hsilent hlater e hmem hsame
    have hdeadline := deadline_le e
    have hsat := satAdd_le now 1000
    omega

/-- The host withdraws its address. -/
def hostGoodbye : Message :=
  { hostAnnouncement with answers := hostAnnouncement.answers.map fun r => { r with ttl := 0 } }

/-- The theorem applied to a host that says goodbye: a second later it is not answered for any
more. -/
theorem goodbye_silences_host : ∃ c c' r, machine.Run new 0
      [((.receive hostAnnouncement 65002 fun _ _ => .ok 0, 5), ())] c 5 ∧
    (c.answers hostQuestion 9).length = 1 ∧
    c' = (c.receive hostGoodbye 65002 10 fun _ _ => .ok 0).2 ∧ r ∈ hostGoodbye.records ∧
    ∀ a ∈ c'.answers hostQuestion 1010, same a r = false := by
  have hrun : machine.Run new 0 [((.receive hostAnnouncement 65002 fun _ _ => .ok 0, 5), ())] _ 5 :=
    Machine.Run.nil.snoc (m := machine) (.receive hostAnnouncement 65002 fun _ _ => .ok 0, 5)
      (Nat.zero_le 5) trivial
  refine ⟨_, _, _, hrun, by decide +kernel, rfl, List.mem_cons_self,
    goodbye_silences hrun rfl (i := 0) List.mem_cons_self rfl rfl rfl ?_ .nil ?_ hostQuestion
      (Nat.le_refl _)⟩
  · intro x hx httl
    rw [List.mem_singleton.1 hx] at httl
    exact absurd rfl httl
  · intro o ho
    exact absurd ho List.not_mem_nil

end Cache

end SnacMachine.Mdns
