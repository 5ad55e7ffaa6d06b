import SnacMachine.Discovery.Limits
import SnacMachine.Mdns.Learned

/-!
# Answers of the Discovery Proxy

What the proxy answers to a question of a served zone (`discovery_proxy/query.rs`): the records that
match the question and those that they point to, each rewritten from the multicast namespace into
the zone's (`Authority.rewrite`).
-/

namespace SnacMachine.Discovery

open Dns Mdns

/-- A zone with what its own records say. Reference: `Zone` (`discovery_proxy.rs:40`). -/
structure Authority extends Zone where
  nameservers : List Name
  mailbox : Name
  /-- `Zone::new` refuses a zone without name servers. -/
  named : nameservers ≠ []

/-! ## Rewriting -/

/-- Reference: `invalid` (`mdns/advertise.rs:19`). -/
def mappingInvalid : IoError := ⟨.invalidData, "invalid Advertising Proxy name mapping"⟩

/-- Reference: `replace_suffix` (`mdns/advertise.rs:165`). -/
def mapName (from_ to_ n : Name) : Except IoError Name :=
  (replaceSuffix n from_ to_).elim (.error wireInvalid) .ok

/-- Reference: `rewrite_data` (`mdns/advertise.rs:173`). -/
def rewriteData (map : Name → Except IoError Name) : Rdata → Except IoError Rdata
  | .name n => (map n).map .name
  | .srv priority weight port target => (map target).map (.srv priority weight port)
  | .preference preference n => (map n).map (.preference preference)
  | .nsec next bitmap => (map next).map fun next => .nsec next bitmap
  | .svcb priority target params => (map target).map fun target => .svcb priority target params
  | .twoNames first second => do
    let first ← map first
    let second ← map second
    .ok (.twoNames first second)
  | .px preference map822 mapx400 => do
    let map822 ← map map822
    let mapx400 ← map mapx400
    .ok (.px preference map822 mapx400)
  | .soa mname rname serial refresh retry expire minimum => do
    let mname ← map mname
    let rname ← map rname
    .ok (.soa mname rname serial refresh retry expire minimum)
  | .sig covered algorithm labels originalTtl expiration inception keyTag signer signature =>
    (map signer).map fun signer =>
      .sig covered algorithm labels originalTtl expiration inception keyTag signer signature
  | .opaque_ _ => .error mappingInvalid
  | data => .ok data

namespace Authority

/-- The domain of hosts. Reference: `Zone::host_domain` (`discovery_proxy.rs:103`). -/
def hostDomain (a : Authority) : Name := a.host.getD a.service

/-- Whether the names in a record's data are hosts. Reference: `discovery_proxy.rs:152`. -/
def hostTarget (r : Record) (q : TranslatedQuestion) (hostOwner : Bool) : Bool :=
  hostOwner || q.scope != .service || ([15, 18, 21, 33, 36] : List UInt16).contains r.kind ||
    (([5, 39] : List UInt16).contains r.kind && (q.original.kind == 1 || q.original.kind == 28)) ||
    match r.data with
    | .svcb priority _ _ => decide (1 ≤ priority)
    | _ => false

/-- A record of the multicast namespace in the zone's, unless it does not belong there. Reference:
`Zone::rewrite` (`discovery_proxy.rs:125`). -/
def rewrite (a : Authority) (r : Record) (q : TranslatedQuestion) (additional : Bool)
    (reach : Reachability) : Except IoError (Option Record) :=
  if a.scope q.original.name ≠ some q.scope then .error invalid
  else if r.cls &&& 0x7fff ≠ 1 ∨ r.ttl = 0 ∨ r.kind ∈ ([2, 6, 24, 41, 43, 46] : List UInt16) ∨
      usable r reach = false then .ok none
  else if r.kind = 47 ∨ r.kind = 50 then .error invalid
  else
    let hostOwner := additional && ([1, 5, 28] : List UInt16).contains r.kind
    match a.domain q.scope with
    | none => .error invalid
    | some domain => do
      let name ← mapName Zone.localName (if hostOwner then a.hostDomain else domain) r.name
      let data ← rewriteData
        (mapName Zone.localName (if hostTarget r q hostOwner then a.hostDomain else domain)) r.data
      .ok (some { r with name, data, cls := r.cls &&& 0x7fff, ttl := min r.ttl 10 })

/-! ## The zone's own records -/

/-- Reference: `Zone::soa` (`discovery_proxy.rs:261`). -/
def soa (a : Authority) (scope : Scope) : Except IoError Record :=
  match a.domain scope with
  | none => .error invalid
  | some domain =>
    .ok ⟨domain, 6, 1, 10, .soa (a.nameservers.head a.named) a.mailbox 0 7200 3600 86400 10⟩

/-- The records at the top of a zone. Reference: `discovery_proxy.rs:326`. -/
def apexRecords (a : Authority) (scope : Scope) (domain : Name) (kind : UInt16) :
    Except IoError (List Record) := do
  let servers := if kind = 2 ∨ kind = 255 then
      a.nameservers.map fun n => (⟨domain, 2, 1, 10, .name n⟩ : Record)
    else []
  if kind = 6 ∨ kind = 255 then do
    let soa ← a.soa scope
    .ok (servers ++ [soa])
  else .ok servers

/-- Whether two labels are equal up to the case of their letters. -/
def sameLetters (a b : Bytes) : Bool := a.map lowercase == b.map lowercase

/-- Whether the labels before a zone are those of a service that the proxy does not have. Reference:
`discovery_proxy.rs:285`. -/
def reserved (relative : List Bytes) : Bool :=
  relative.length == 2 &&
    ([("_dns-llq", "_udp"), ("_dns-llq", "_tcp"), ("_dns-llq-tls", "_tcp"),
      ("_dns-push-tls", "_tcp"), ("_dns-update", "_udp"), ("_dns-update", "_tcp"),
      ("_dns-update-tls", "_tcp")] : List (String × String)).any fun e =>
        sameLetters (relative.getD 0 []) (ascii e.1) && sameLetters (relative.getD 1 []) (ascii e.2)

/-- Whether the labels before a reverse zone ask for browsing domains. Reference:
`discovery_proxy.rs:301`. -/
def enumeration (scope : Scope) (relative : List Bytes) : Bool :=
  (match scope with
    | .reverse _ => true
    | _ => false) &&
  relative.length == 3 &&
    (["b", "db", "lb", "r", "dr"] : List String).any
      (fun n => sameLetters (relative.getD 0 []) (ascii n)) &&
    sameLetters (relative.getD 1 []) (ascii "_dns-sd") &&
    sameLetters (relative.getD 2 []) (ascii "_udp")

/-- What the zone answers itself. Reference: `Zone::metadata` (`discovery_proxy.rs:278`). -/
def metadata (a : Authority) (sha1 : Bytes → Octets 20) (q : Question) :
    Except IoError (Option Found) :=
  match a.question q with
  | none => .error invalid
  | some none => .ok none
  | some (some mapped) =>
    match a.domain mapped.scope with
    | none => .error invalid
    | some domain =>
      let apex := q.name == domain
      let relative := q.name.labels.take (q.name.labels.length - domain.labels.length)
      if !apex && !([2, 6, 43] : List UInt16).contains q.kind && !reserved relative &&
          !enumeration mapped.scope relative then .ok none
      else if apex ∧ (q.kind = 47 ∨ q.kind = 50) then do
        let types ← a.apexRecords mapped.scope domain 255
        let r ← a.denial sha1 mapped (types.map fun r => { r with name := mapped.multicast.name })
          ⟨false, false, false, false, false⟩
        .ok (some ⟨false, [r], [], []⟩)
      else do
        let answers ← if apex then a.apexRecords mapped.scope domain q.kind else .ok []
        if answers.isEmpty then do
          let soa ← a.soa mapped.scope
          .ok (some ⟨false, [], [soa], []⟩)
        else .ok (some ⟨false, answers, [], []⟩)

end Authority

/-! ## Gathering -/

/-- What a question finds among the learned records and the local ones. Reference:
`discovery_proxy/query.rs:190`. -/
def lookup (cache : Mdns.Cache) (mine : Question → List Record) (now : Nat) (q : Question) :
    List Record :=
  (mine q).foldl (fun out r => if out.any fun old => same old r then out else out ++ [r])
    (cache.answers q now)

section
variable (reach : Reachability) (find : Question → List Record)

/-- Reference: `Proxy::host_usable` (`discovery_proxy/query.rs:308`). -/
def hostUsable (name : Name) : Bool :=
  if name.labels = [] then false
  else
    let addresses := ([1, 28] : List UInt16).flatMap fun kind =>
      (find ⟨name, kind, 1⟩).filter fun r => r.kind == 1 || r.kind == 28
    addresses.isEmpty || addresses.any fun r => usable r reach

/-- Reference: `Proxy::service_usable` (`discovery_proxy/query.rs:274`). -/
def serviceUsable (r : Record) : Bool :=
  reach.includeUnusable ||
    match r.data with
    | .srv _ _ _ target => hostUsable reach find target
    | .name target =>
      r.kind != 12 ||
        let records := (find ⟨target, 33, 1⟩).filter fun r => r.kind == 33
        records.isEmpty || records.any fun r =>
          match r.data with
          | .srv _ _ _ target => hostUsable reach find target
          | _ => true
    | _ => true

end

/-- The questions for the records that a record points to. Reference:
`discovery_proxy/query.rs:228`. -/
def pointers (scope : Scope) (e : Record × Bool) : List (Name × UInt16) :=
  match e.1.data with
  | .name n =>
    if e.1.kind = 12 ∧ (match scope with | .reverse _ => false | _ => true) = true then
      [(n, 33), (n, 16)]
    else if e.1.kind = 5 ∧ e.2 = true then [(n, 1), (n, 28)]
    else []
  | .srv _ _ _ target => [(target, 1), (target, 28)]
  | _ => []

/-- The records of an answer, each with whether it is an additional one, and whether there were too
many. -/
structure Chased where
  records : List (Record × Bool)
  truncated : Bool

/-- Reference: `discovery_proxy/query.rs:209`. -/
def takeMatches (ok : Record → Bool) : List Record → Chased → Chased
  | [], s => s
  | r :: rs, s =>
    if ok r then
      if s.records.length = 512 then { s with truncated := true }
      else takeMatches ok rs { s with records := s.records ++ [(r, false)] }
    else takeMatches ok rs s

/-- Reference: `discovery_proxy/query.rs:240`. -/
def takeExtras (ok : Record → Bool) : List Record → Chased → Chased
  | [], s => s
  | r :: rs, s =>
    if (s.records.any fun e => same e.1 r) || !ok r then takeExtras ok rs s
    else if s.records.length = 512 then { s with truncated := true }
    else takeExtras ok rs { s with records := s.records ++ [(r, true)] }

/-- Follows the records from some place on; there are at most 512. Reference:
`discovery_proxy/query.rs:222`. -/
def chase (ok : Record → Bool) (find : Question → List Record) (scope : Scope) :
    (fuel cursor : Nat) → Chased → Chased
  | 0, _, s => s
  | fuel + 1, cursor, s =>
    match s.records[cursor]? with
    | none => s
    | some e =>
      chase ok find scope fuel (cursor + 1) <| (pointers scope e).foldl
        (fun s n => takeExtras ok ((find ⟨n.1, n.2, 1⟩).filter fun r => r.kind != 47) s) s

/-- The records that match a question and may be used. Reference: `discovery_proxy/query.rs:209`. -/
def matching (reach : Reachability) (find : Question → List Record) (q : TranslatedQuestion) :
    List Record :=
  ((find q.multicast).filter fun r => r.kind != 47 && matches_ q.multicast r).filter
    (serviceUsable reach find)

/-- The records of an answer. Reference: `discovery_proxy/query.rs:208`. -/
def gathered (reach : Reachability) (find : Question → List Record) (q : TranslatedQuestion) :
    Chased :=
  chase (serviceUsable reach find) find q.scope 512 0
    (takeMatches (serviceUsable reach find)
      ((find q.multicast).filter fun r => r.kind != 47 && matches_ q.multicast r) ⟨[], false⟩)

namespace Authority

/-- Puts a rewritten record into its section. Reference: `discovery_proxy/query.rs:260`. -/
def place (s : List Record × List Record) (additional : Bool) :
    Option Record → List Record × List Record
  | none => s
  | some r => if additional then (s.1, s.2 ++ [r]) else (s.1 ++ [r], s.2)

/-- One record of an answer. Reference: `discovery_proxy/query.rs:258`. -/
def put (a : Authority) (reach : Reachability) (q : TranslatedQuestion)
    (s : List Record × List Record) (e : Record × Bool) :
    Except IoError (List Record × List Record) := do
  let r ← a.rewrite e.1 q e.2 reach
  .ok (place s e.2 r)

/-- The answer with some records. Reference: `discovery_proxy/query.rs:267`. -/
def finish (a : Authority) (scope : Scope) (truncated : Bool) (s : List Record × List Record) :
    Except IoError (Option Found) :=
  if s.1.isEmpty then do
    let soa ← a.soa scope
    .ok (some ⟨truncated, [], [soa], []⟩)
  else .ok (some ⟨truncated, s.1, [], s.2⟩)

/-- The answer to a question that the zone does not answer itself. Reference:
`discovery_proxy/query.rs:189`. -/
def learnedAnswer (a : Authority) (reach : Reachability) (sha1 : Bytes → Octets 20)
    (find : Question → List Record) (negative timeout : Bool) (q : TranslatedQuestion) :
    Except IoError (Option Found) :=
  let raw := find q.multicast
  if raw.isEmpty && !negative && !timeout then .ok none
  else if q.original.kind = 47 ∨ q.original.kind = 50 then do
    let r ← a.denial sha1 q raw reach
    .ok (some ⟨false, [r], [], []⟩)
  else do
    let s ← (gathered reach find q).records.foldlM (a.put reach q) ([], [])
    a.finish q.scope (gathered reach find q).truncated s

/-- Reference: `Proxy::answer` (`discovery_proxy/query.rs:178`). -/
def answer (a : Authority) (reach : Reachability) (sha1 : Bytes → Octets 20)
    (find : Question → List Record) (negative timeout : Bool) (q : TranslatedQuestion) :
    Except IoError (Option Found) := do
  let own ← a.metadata sha1 q.original
  if own.isSome then .ok own else a.learnedAnswer reach sha1 find negative timeout q

/-- The answers for the jobs of a proxy; `caches` are the learned records as each job finds them,
`mine` are the local ones. Reference: `discovery_proxy/query.rs:134`. -/
def answers (a : Authority) (reach : Reachability) (sha1 : Bytes → Octets 20)
    (caches : Nat → Mdns.Cache) (mine : Question → List Record) (now : Nat) (p : Proxy) (id : Nat) :
    Except IoError (Option Found) :=
  match p.jobs.get id with
  | none => .ok none
  | some job =>
    a.answer reach sha1 (lookup (caches id) mine now) ((caches id).negative job.query.multicast now)
      (decide (now ≥ job.until_)) job.query

end Authority

/-! ## What is gathered -/

/-- The records that are not additional ones. -/
def Chased.matched (s : Chased) : List (Record × Bool) := s.records.filter fun e => !e.2

/-- The records that a question finds are taken as far as the limit of 512 leaves room. By induction
on the records: one that is not asked for is passed over, and nothing is taken once the limit is
reached. -/
theorem takeMatches_records (ok : Record → Bool) {rs : List Record} {s : Chased}
    (hs : s.records.length ≤ 512) : (takeMatches ok rs s).records =
      s.records ++ ((rs.filter ok).take (512 - s.records.length)).map fun r => (r, false) := by
  induction rs generalizing s with
  | nil => simp [takeMatches]
  | cons r rs ih =>
    unfold takeMatches
    split
    · next hok =>
      rw [List.filter_cons_of_pos hok]
      split
      · next hfull =>
        rw [hfull, Nat.sub_self, List.take_zero, List.map_nil, List.append_nil]
      · next hfull =>
        obtain ⟨n, hn⟩ : ∃ n, 512 - s.records.length = n + 1 := ⟨511 - s.records.length, by omega⟩
        have hlen : (s.records ++ [(r, false)]).length = s.records.length + 1 := List.length_append
        rw [ih (by rw [hlen]; omega), hlen, hn, List.take_succ_cons,
          show 512 - (s.records.length + 1) = n by omega]
        simp
    · next hok =>
      rw [List.filter_cons_of_neg hok, ih hs]

/-- Additional records are no matches. By induction on the records, each of which is added with the
flag that it was not asked for. -/
theorem takeExtras_matched (ok : Record → Bool) (rs : List Record) (s : Chased) :
    (takeExtras ok rs s).matched = s.matched := by
  induction rs generalizing s with
  | nil => rfl
  | cons r rs ih =>
    unfold takeExtras
    split
    · exact ih s
    · split
      · rfl
      · rw [ih]
        simp [Chased.matched]

/-- No matches come from the additional records of any name. -/
theorem foldl_takeExtras_matched (ok : Record → Bool) (find : Question → List Record)
    (ns : List (Name × UInt16)) (s : Chased) :
    (ns.foldl (fun s n => takeExtras ok ((find ⟨n.1, n.2, 1⟩).filter fun r => r.kind != 47) s)
      s).matched = s.matched := by
  induction ns generalizing s with
  | nil => rfl
  | cons n ns ih => rw [List.foldl_cons, ih, takeExtras_matched]

/-- Following the names that records lead to adds records, but no matches. -/
theorem chase_matched (ok : Record → Bool) (find : Question → List Record) (scope : Scope)
    (fuel cursor : Nat) (s : Chased) : (chase ok find scope fuel cursor s).matched = s.matched := by
  induction fuel generalizing cursor s with
  | zero => rfl
  | succ fuel ih =>
    unfold chase
    split
    · rfl
    · next e _ => rw [ih, foldl_takeExtras_matched]

/-- The records in the answer are the first 512 that match and may be used. -/
theorem gathered_matched (reach : Reachability) (find : Question → List Record)
    (q : TranslatedQuestion) : (gathered reach find q).matched =
      ((matching reach find q).take 512).map fun r => (r, false) := by
  rw [gathered, chase_matched, Chased.matched, takeMatches_records _ (by decide)]
  simp only [List.nil_append, List.length_nil, Nat.sub_zero, matching]
  exact List.filter_eq_self.2 fun e he => by
    obtain ⟨r, -, rfl⟩ := List.mem_map.1 he
    rfl

/-! ## What is rewritten -/

/-- Whether a question is answered by one denial. -/
def Denies (q : TranslatedQuestion) : Prop := q.original.kind = 47 ∨ q.original.kind = 50

instance (q : TranslatedQuestion) : Decidable (Denies q) := inferInstanceAs (Decidable (_ ∨ _))

namespace Authority

section
variable (a : Authority) (reach : Reachability) (q : TranslatedQuestion)

/-- What a record is in the zone, if anything. -/
def rewritten (e : Record × Bool) : Option Record :=
  (a.rewrite e.1 q e.2 reach).toOption.join

/-- Whether a record fails to be rewritten. -/
def Fails (e : Record × Bool) : Prop := ∃ err, a.rewrite e.1 q e.2 reach = .error err

end

section
variable {a : Authority} {reach : Reachability} {q : TranslatedQuestion}

/-- If no record fails, the answers and the additional records are all that can be rewritten, each
in its section and in the order in which they were found. -/
theorem foldlM_put {es : List (Record × Bool)} (s : List Record × List Record)
    (h : ∀ e ∈ es, ¬ a.Fails reach q e) : es.foldlM (a.put reach q) s =
      .ok (s.1 ++ (es.filter fun e => !e.2).filterMap (a.rewritten reach q),
        s.2 ++ (es.filter fun e => e.2).filterMap (a.rewritten reach q)) := by
  induction es generalizing s with
  | nil => simp [pure, Except.pure]
  | cons e es ih =>
    obtain ⟨he, hes⟩ := List.forall_mem_cons.1 h
    obtain ⟨r, additional⟩ := e
    cases hr : a.rewrite r q additional reach with
    | error err => exact absurd ⟨err, hr⟩ he
    | ok o =>
      have hrewritten : a.rewritten reach q (r, additional) = o := by
        rw [rewritten, hr]
        rfl
      have hput : a.put reach q s (r, additional) = .ok (place s additional o) := by
        rw [put, hr]
        rfl
      rw [List.foldlM_cons, hput]
      refine (ih _ hes).trans ?_
      cases o <;> cases additional <;> simp [place, hrewritten]

/-- One record that fails is enough for the whole answer to fail. By induction on the records, since
nothing that is put in after it takes the error back. -/
theorem foldlM_put_error {es : List (Record × Bool)} (s : List Record × List Record)
    {e : Record × Bool} (he : e ∈ es) (h : a.Fails reach q e) :
    ∃ err, es.foldlM (a.put reach q) s = .error err := by
  induction es generalizing s with
  | nil => exact absurd he List.not_mem_nil
  | cons x es ih =>
    rw [List.foldlM_cons]
    cases hx : a.put reach q s x with
    | error err => exact ⟨err, rfl⟩
    | ok s' =>
      rcases List.mem_cons.1 he with rfl | he
      · obtain ⟨err, herr⟩ := h
        rw [put, herr] at hx
        cases hx
      · exact ih s' he

/-- The records of the answer section. -/
def matchedAnswers (a : Authority) (reach : Reachability) (find : Question → List Record)
    (q : TranslatedQuestion) : List Record :=
  ((matching reach find q).take 512).filterMap fun r => a.rewritten reach q (r, false)

/-- The answer without the records that cannot be rewritten. -/
def withoutFailures (a : Authority) (reach : Reachability) (find : Question → List Record)
    (q : TranslatedQuestion) : Found :=
  let s := gathered reach find q
  if (a.matchedAnswers reach find q).isEmpty then
    ⟨s.truncated, [], (a.soa q.scope).toOption.toList, []⟩
  else ⟨s.truncated, a.matchedAnswers reach find q, [],
    (s.records.filter fun e => e.2).filterMap (a.rewritten reach q)⟩

/-- Once something was found, or is known to be missing, or the time is over, the answer is a
denial, or what the gathered records give. -/
theorem answer_ready {sha1 : Bytes → Octets 20} {find : Question → List Record}
    {negative timeout : Bool} (hown : a.metadata sha1 q.original = .ok none)
    (hready : find q.multicast ≠ [] ∨ negative = true ∨ timeout = true) :
    a.answer reach sha1 find negative timeout q =
      if Denies q then (a.denial sha1 q (find q.multicast) reach).map fun r =>
      some ⟨false, [r], [], []⟩
      else (gathered reach find q).records.foldlM (a.put reach q) ([], []) >>=
        a.finish q.scope (gathered reach find q).truncated := by
  have hwait : ((find q.multicast).isEmpty && !negative && !timeout) = false := by
    rcases hready with h | h | h
    · cases hf : find q.multicast with
      | nil => exact absurd hf h
      | cons r rs => rfl
    · simp [h]
    · simp [h]
  rw [answer, hown]
  show a.learnedAnswer reach sha1 find negative timeout q = _
  simp only [learnedAnswer, hwait, Bool.false_eq_true, if_false]
  by_cases hkind : Denies q
  · rw [if_pos hkind, if_pos (show q.original.kind = 47 ∨ q.original.kind = 50 from hkind)]
    cases a.denial sha1 q (find q.multicast) reach <;> rfl
  · rw [if_neg hkind, if_neg (show ¬ (q.original.kind = 47 ∨ q.original.kind = 50) from hkind)]

/-- The answer to an accepted question that the zone does not answer itself, and that asks for no
denial: it is the one without the records that cannot be rewritten if there are none, and an error
otherwise. -/
theorem answer_cases {sha1 : Bytes → Octets 20} {find : Question → List Record}
    {negative timeout : Bool} (hown : a.metadata sha1 q.original = .ok none)
    (hkind : ¬ Denies q) (hready : find q.multicast ≠ [] ∨ negative = true ∨ timeout = true)
    {soa : Record} (hsoa : a.soa q.scope = .ok soa) :
    ((∀ e ∈ (gathered reach find q).records, ¬ a.Fails reach q e) ∧
      a.answer reach sha1 find negative timeout q = .ok (some (a.withoutFailures reach find q))) ∨
    ((∃ e ∈ (gathered reach find q).records, a.Fails reach q e) ∧
      ∃ err, a.answer reach sha1 find negative timeout q = .error err) := by
  have hbranch : a.answer reach sha1 find negative timeout q = _ := answer_ready hown hready
  rw [if_neg hkind] at hbranch
  by_cases h : ∃ e ∈ (gathered reach find q).records, a.Fails reach q e
  · obtain ⟨e, he, hfail⟩ := h
    obtain ⟨err, herr⟩ := foldlM_put_error ([], []) he hfail
    refine .inr ⟨⟨e, he, hfail⟩, err, ?_⟩
    rw [hbranch, herr]
    rfl
  · have hall : ∀ e ∈ (gathered reach find q).records, ¬ a.Fails reach q e :=
      fun e he hfail => h ⟨e, he, hfail⟩
    refine .inl ⟨hall, ?_⟩
    have hmatched : ((gathered reach find q).records.filter fun e => !e.2).filterMap
        (a.rewritten reach q) = a.matchedAnswers reach find q := by
      rw [show (gathered reach find q).records.filter (fun e => !e.2) = _ from
        gathered_matched reach find q, List.filterMap_map]
      rfl
    rw [hbranch, foldlM_put ([], []) hall, hmatched]
    show a.finish _ _ _ = _
    simp only [finish, withoutFailures, List.nil_append, hsoa]
    split <;> rfl

/-- A record that is rewritten is no denial, and keeps its type. The rewriting returns a record in
its last branch only, after `rewrite` has turned away NSEC and NSEC3 and has mapped the name and the
data; neither changes the type. -/
theorem kind_of_rewritten {e : Record × Bool} {r : Record} (h : a.rewritten reach q e = some r) :
    r.kind ≠ 47 ∧ r.kind ≠ 50 := by
  unfold rewritten rewrite at h
  split at h
  · cases h
  · split at h
    · cases h
    · split at h
      · cases h
      · next hkind =>
        rw [not_or] at hkind
        dsimp only at h
        split at h
        · cases h
        · next domain _ =>
          cases hname : mapName Zone.localName
              (if e.2 && ([1, 5, 28] : List UInt16).contains e.1.kind then a.hostDomain else domain)
              e.1.name with
          | error err =>
            rw [hname] at h
            cases h
          | ok name =>
            rw [hname] at h
            cases hdata : rewriteData (mapName Zone.localName
                (if hostTarget e.1 q (e.2 && ([1, 5, 28] : List UInt16).contains e.1.kind) then
                  a.hostDomain else domain)) e.1.data with
            | error err =>
              simp only [hdata, bind, Except.bind] at h
              cases h
            | ok data =>
              simp only [hdata, bind, Except.bind] at h
              cases h
              exact hkind

end

end Authority

/-! ## What a completed job says -/

/-- The scope and the domain of an accepted question. The zone answers `some (some t)` in one branch
only, behind the tests of both. -/
theorem Authority.domain_of_question {a : Authority} {q : Question} {t : TranslatedQuestion}
    (h : a.question q = some (some t)) :
    t.original = q ∧ a.scope q.name = some t.scope ∧ ∃ domain, a.domain t.scope = some domain := by
  have hscope : t.original = q ∧ a.scope q.name = some t.scope := by
    unfold Zone.question at h
    split at h
    · cases h
    · split at h
      · cases h
      · next scope hscope =>
        dsimp only at h
        split at h
        · cases h
          exact ⟨rfl, hscope⟩
        · simp only [Option.bind_eq_bind, Option.bind_eq_some_iff, Option.some.injEq] at h
          obtain ⟨domain, -, name, -, rfl⟩ := h
          exact ⟨rfl, hscope⟩
  obtain ⟨e, he, hs⟩ := Option.map_eq_some_iff.1 hscope.2
  have hdomain := Zone.domain_of_mem (List.mem_filter.1 (Zone.mem_of_longest he)).1
  rw [hs] at hdomain
  exact ⟨hscope.1, hscope.2, _, hdomain⟩

/-- The zone of an accepted question has a SOA record. -/
theorem Authority.soa_of_question {a : Authority} {q : Question} {t : TranslatedQuestion}
    (h : a.question q = some (some t)) : ∃ soa, a.soa t.scope = .ok soa := by
  obtain ⟨-, -, domain, hdomain⟩ := Authority.domain_of_question h
  exact ⟨_, by rw [Authority.soa, hdomain]⟩

/-- The names in record data that are rewritten. -/
def dataNames : Rdata → List Name
  | .name n => [n]
  | .srv _ _ _ target => [target]
  | .preference _ n => [n]
  | .nsec next _ => [next]
  | .svcb _ target _ => [target]
  | .twoNames first second => [first, second]
  | .px _ map822 mapx400 => [map822, mapx400]
  | .soa mname rname _ _ _ _ _ => [mname, rname]
  | .sig _ _ _ _ _ _ _ signer _ => [signer]
  | _ => []

/-- A name cannot be mapped exactly if it does not end in the suffix that is replaced. -/
theorem mapName_error_iff {from_ to_ n : Name} :
    (∃ err, mapName from_ to_ n = .error err) ↔ replaceSuffix n from_ to_ = none := by
  unfold mapName
  cases replaceSuffix n from_ to_ with
  | none => simp
  | some n => simp

/-- Two results in a row fail if one of them does. -/
theorem bind_bind_error_iff {α β γ : Type} {x : Except IoError α} {y : Except IoError β}
    {f : α → β → γ} : (∃ err, (x.bind fun v => y.bind fun w => .ok (f v w)) = .error err) ↔
      (∃ err, x = .error err) ∨ ∃ err, y = .error err := by
  cases x with
  | error e => simp [Except.bind]
  | ok v =>
    cases y with
    | error e => simp [Except.bind]
    | ok w => simp [Except.bind]

/-- Data cannot be rewritten exactly if its form is unknown or one of its names cannot be mapped.
One case for each form; data without names is kept as it is. -/
theorem rewriteData_error_iff {map : Name → Except IoError Name} {d : Rdata} :
    (∃ err, rewriteData map d = .error err) ↔
      (∃ b, d = .opaque_ b) ∨ ∃ n ∈ dataNames d, ∃ err, map n = .error err := by
  have one : ∀ {n : Name} {f : Name → Rdata},
      (∃ err, (map n).map f = .error err) ↔ ∃ err, map n = .error err := by
    intro n f
    cases map n with
    | error e => simp [Except.map]
    | ok m => simp [Except.map]
  cases d with
  | name n => exact one.trans (by simp [dataNames])
  | srv priority weight port target => exact one.trans (by simp [dataNames])
  | preference preference n => exact one.trans (by simp [dataNames])
  | nsec next bitmap => exact one.trans (by simp [dataNames])
  | svcb priority target params => exact one.trans (by simp [dataNames])
  | sig => exact one.trans (by simp [dataNames])
  | twoNames first second => exact bind_bind_error_iff.trans (by simp [dataNames])
  | px preference map822 mapx400 => exact bind_bind_error_iff.trans (by simp [dataNames])
  | soa => exact bind_bind_error_iff.trans (by simp [dataNames])
  | opaque_ b => simp [rewriteData]
  | empty => simp [rewriteData, dataNames]
  | a address => simp [rewriteData, dataNames]
  | aaaa address => simp [rewriteData, dataNames]
  | txt strings => simp [rewriteData, dataNames]
  | key => simp [rewriteData, dataNames]
  | opt options => simp [rewriteData, dataNames]
  | bytes b => simp [rewriteData, dataNames]

/-- Whether a record of the answer has no place in the zone although nothing keeps it out: it is an
NSEC or NSEC3 record, its data is not understood, or a name becomes too long. -/
structure Authority.Unrewritable (a : Authority) (reach : Reachability) (q : TranslatedQuestion)
    (e : Record × Bool) : Prop where
  cls : e.1.cls &&& 0x7fff = 1
  ttl : e.1.ttl ≠ 0
  kind : e.1.kind ∉ ([2, 6, 24, 41, 43, 46] : List UInt16)
  usable : usable e.1 reach = true
  spoiled : e.1.kind = 47 ∨ e.1.kind = 50 ∨ (∃ b, e.1.data = .opaque_ b) ∨
    ∃ domain, a.domain q.scope = some domain ∧
      (replaceSuffix e.1.name Zone.localName
          (if e.2 && ([1, 5, 28] : List UInt16).contains e.1.kind then a.hostDomain else domain) =
        none ∨
      ∃ n ∈ dataNames e.1.data, replaceSuffix n Zone.localName
        (if hostTarget e.1 q (e.2 && ([1, 5, 28] : List UInt16).contains e.1.kind) then a.hostDomain
          else domain) = none)

/-- Which records of an accepted question's answer cannot be rewritten. A record that the source
leaves out never fails; of the others, a denial fails always, and the rest if a name of the owner or
of the data cannot be mapped (`mapName_error_iff`, `rewriteData_error_iff`). -/
theorem Authority.fails_iff {a : Authority} {reach : Reachability} {q : TranslatedQuestion}
    (h : a.question q.original = some (some q)) {e : Record × Bool} :
    a.Fails reach q e ↔ a.Unrewritable reach q e := by
  obtain ⟨-, hscope, domain, hdomain⟩ := Authority.domain_of_question h
  unfold Authority.Fails Authority.rewrite
  rw [if_neg (not_not.2 hscope)]
  split
  · next hout =>
    constructor
    · rintro ⟨err, herr⟩
      cases herr
    · intro hu
      rcases hout with h1 | h1 | h1 | h1
      · exact absurd hu.cls h1
      · exact absurd h1 hu.ttl
      · exact absurd h1 hu.kind
      · exact absurd (h1.symm.trans hu.usable) (by decide)
  · next hin =>
    obtain ⟨hcls, httl, hkind, husable⟩ : e.1.cls &&& 0x7fff = 1 ∧ e.1.ttl ≠ 0 ∧
        e.1.kind ∉ ([2, 6, 24, 41, 43, 46] : List UInt16) ∧ usable e.1 reach = true := by
      simpa using hin
    split
    · next hnsec =>
      refine ⟨fun _ => ⟨hcls, httl, hkind, husable, ?_⟩, fun _ => ⟨_, rfl⟩⟩
      exact hnsec.imp_right .inl
    · next hnsec =>
      simp only [hdomain]
      refine bind_bind_error_iff.trans ?_
      rw [mapName_error_iff, rewriteData_error_iff]
      simp only [mapName_error_iff]
      constructor
      · intro hbad
        refine ⟨hcls, httl, hkind, husable, .inr (.inr ?_)⟩
        rcases hbad with hname | hunread | hdata
        · exact .inr ⟨domain, hdomain, .inl hname⟩
        · exact .inl hunread
        · exact .inr ⟨domain, hdomain, .inr hdata⟩
      · intro hu
        rcases hu.spoiled with h47 | h50 | hunread | ⟨domain', hdomain', hbad⟩
        · exact absurd (.inl h47) hnsec
        · exact absurd (.inr h50) hnsec
        · exact .inr (.inl hunread)
        · cases hdomain.symm.trans hdomain'
          exact hbad.imp_right .inr

/-! ## Cut answers -/

/-- Whether a message can be sent. Reference: `bound_answer` (`discovery_proxy/query.rs:345`). -/
def octetsFit (m : Message) : Bool :=
  match m.encodeContext .unicast with
  | some b => decide (b.length ≤ 65535)
  | none => false

/-- A message without as many of its last records as keep it from being sent. -/
def trimmed : (fuel : Nat) → Message → Message
  | 0, m => m
  | fuel + 1, m =>
    if octetsFit m then m
    else match popRecord { m with flags := m.flags ||| 0x200 } with
      | some m => trimmed fuel m
      | none => m

/-- An answer fits if its cost and its octets do; the two limits are independent. -/
theorem answerFits_eq (m : Message) :
    answerFits m = (decide (answerCost m ≤ 4194304) && octetsFit m) := rfl

/-- An answer is cut to the octets that can be sent and no further exactly if what is left is not
too costly. -/
theorem boundAnswer_eq_trimmed {fuel : Nat} {m x : Message} (h : boundAnswer fuel m = some x) :
    x = trimmed fuel m ↔ answerCost (trimmed fuel m) ≤ 4194304 := by
  induction fuel generalizing m with
  | zero =>
    unfold boundAnswer at h
    split at h
    · next hfits =>
      cases h
      rw [answerFits_eq, Bool.and_eq_true, decide_eq_true_eq] at hfits
      exact iff_of_true rfl hfits.1
    · split at h
      · next hzero => cases hzero
      · cases h
  | succ fuel ih =>
    unfold boundAnswer at h
    rw [trimmed]
    split at h
    · next hfits =>
      cases h
      rw [answerFits_eq, Bool.and_eq_true, decide_eq_true_eq] at hfits
      rw [if_pos hfits.2]
      exact iff_of_true rfl hfits.1
    · next hfits =>
      split at h
      · next x' n hpop hn =>
        obtain rfl : fuel = n := Nat.succ.inj hn
        rw [hpop]
        cases hoctets : octetsFit m with
        | true =>
          rw [answerFits_eq, hoctets, Bool.and_true, decide_eq_true_eq] at hfits
          refine iff_of_false ?_ hfits
          rintro rfl
          have hless := (Proxy.popRecord_cases hpop).2.2
          have hle := (Proxy.boundAnswer_cases h).2.2
          omega
        | false => exact ih h
      · cases h

/-- The flag of truncation is not part of the code of the answer. -/
theorem rcode_or_truncated (flags : UInt16) : (flags ||| 0x200) &&& 15 = flags &&& 15 := by
  refine UInt16.toBitVec_inj.1 ?_
  simp only [UInt16.toBitVec_and, UInt16.toBitVec_or]
  rw [BitVec.and_or_distrib_right]
  simp

/-- Cutting an answer leaves the first of its records. -/
theorem trimmed_answers (fuel : Nat) (m : Message) : (trimmed fuel m).answers <+: m.answers := by
  induction fuel generalizing m with
  | zero => exact List.prefix_rfl
  | succ fuel ih =>
    rw [trimmed]
    split
    · exact List.prefix_rfl
    · split
      · next x hpop => exact (ih x).trans (Proxy.popRecord_cases hpop).1
      · exact List.prefix_rfl

/-- Cutting an answer keeps its code. By induction on the fuel: each turn drops one record and may
set the flag that the answer is truncated. -/
theorem trimmed_rcode (fuel : Nat) (m : Message) :
    (trimmed fuel m).flags &&& 15 = m.flags &&& 15 := by
  induction fuel generalizing m with
  | zero => rfl
  | succ fuel ih =>
    rw [trimmed]
    split
    · rfl
    · split
      · next x hpop =>
        rw [ih x, (Proxy.popRecord_cases hpop).2.1]
        exact rcode_or_truncated m.flags
      · rfl

/-! ## Answers that no record spoils -/

/-- The answer that is made of the records that can be rewritten, cut from the end to the octets
that can be sent. -/
def Authority.unspoiled (a : Authority) (reach : Reachability) (find : Question → List Record)
    (q : TranslatedQuestion) : Message :=
  let m := (a.withoutFailures reach find q).message q.original
  trimmed m.records.length m

/-- What a completed answer is if no record spoils it: it has the answers that the matching records
give, up to what is cut from the end for the number of records and of octets; if there are any, it
is no failure; and a record that cannot be rewritten affects only itself: the answer is the one
without such records, or, to a question for a denial, no failure. -/
structure Unpoisoned (a : Authority) (reach : Reachability) (find : Question → List Record)
    (q : TranslatedQuestion) (done : Message) : Prop where
  answers : ∀ r ∈ (a.unspoiled reach find q).answers, r ∈ done.answers
  served : ((matching reach find q).filterMap fun r => a.rewritten reach q (r, false)) ≠ [] →
    done.flags &&& 15 ≠ 2
  alone : if Denies q then done.flags &&& 15 ≠ 2 else done = a.unspoiled reach find q

/-- What the records of an answer must be for none of them to spoil it. All that are gathered can be
rewritten, and what is made of them is not too costly. A question for a denial is answered by the
denial only, so that no record may give an answer, and the denial must keep to its limits. -/
def Harmless (a : Authority) (reach : Reachability) (sha1 : Bytes → Octets 20)
    (find : Question → List Record) (q : TranslatedQuestion) : Prop :=
  if Denies q then
    (a.unspoiled reach find q).answers = [] ∧
      ∃ domain, a.domain q.scope = some domain ∧ Deniable sha1 q domain (find q.multicast) reach
  else
    (∀ e ∈ (gathered reach find q).records, ¬ a.Unrewritable reach q e) ∧
      answerCost (a.unspoiled reach find q) ≤ 4194304

/-- Whether a job completes from the records that its question finds: the zone does not answer it
itself, and it is time to answer. -/
structure Gathers (a : Authority) (sha1 : Bytes → Octets 20) (cache : Mdns.Cache)
    (mine : Question → List Record) (now : Nat) (job : Job) : Prop where
  accepted : a.question job.query.original = some (some job.query)
  foreign : a.metadata sha1 job.query.original = .ok none
  ready : lookup cache mine now job.query.multicast ≠ [] ∨
    cache.negative job.query.multicast now = true ∨ job.until_ ≤ now

section
variable {a : Authority} {reach : Reachability} {find : Question → List Record}
  {q : TranslatedQuestion}

/-- Without the records that cannot be rewritten, an answer is made of the others that match. -/
theorem withoutFailures_answers :
    (a.withoutFailures reach find q).answers = a.matchedAnswers reach find q := by
  simp only [Authority.withoutFailures]
  split
  · next h => exact (List.isEmpty_iff.1 h).symm
  · rfl

/-- An answer that is made of records is no failure. -/
theorem rcode_of_message (f : Found) (q : Question) : (f.message q).flags &&& 15 = 0 := by
  have hflags : (f.message q).flags = if f.truncated then 0x8600 else 0x8400 := rfl
  rw [hflags]
  cases f.truncated with
  | false => exact show (0x8400 &&& 15 : UInt16) = 0 by decide
  | true => exact show (0x8600 &&& 15 : UInt16) = 0 by decide

/-- Cutting an answer leaves it what it says of the server. -/
theorem rcode_of_boundAnswer {fuel : Nat} {m x : Message} (h : boundAnswer fuel m = some x) :
    x.flags &&& 15 = m.flags &&& 15 := by
  rcases (Proxy.boundAnswer_cases h).2.1 with rfl | hflags
  · rfl
  · rw [hflags]
    exact rcode_or_truncated m.flags

/-- The answer that stands for a failure has the code of a failure. -/
theorem rcode_of_failedAnswer (q : Question) : (failedAnswer q).flags &&& 15 = 2 :=
  show (0x8402 &&& 15 : UInt16) = 2 by decide

/-- The answer without the records that cannot be rewritten is spoiled by none. -/
theorem unpoisoned_unspoiled (hkind : ¬ Denies q) :
    Unpoisoned a reach find q (a.unspoiled reach find q) := by
  have hrcode : (a.unspoiled reach find q).flags &&& 15 ≠ 2 := by
    rw [Authority.unspoiled, trimmed_rcode, rcode_of_message]
    decide
  exact ⟨fun _ h => h, fun _ => hrcode, by rw [if_neg hkind]⟩

/-- No answer of the records is a denial. -/
theorem kind_of_unspoiled {r : Record} (h : r ∈ (a.unspoiled reach find q).answers) :
    r.kind ≠ 47 ∧ r.kind ≠ 50 := by
  have hmem := (trimmed_answers _ _).subset h
  rw [show ((a.withoutFailures reach find q).message q.original).answers =
    a.matchedAnswers reach find q from withoutFailures_answers] at hmem
  obtain ⟨r', -, hr'⟩ := List.mem_filterMap.1 hmem
  exact Authority.kind_of_rewritten hr'

/-- An answer with a denial is not spoiled exactly if the records give none. What the records give
is no denial (`kind_of_unspoiled`), so the two answers have no record in common. -/
theorem unpoisoned_denial {r : Record} {done : Message} (hkind : Denies q)
    (hr : r.kind = 47 ∨ r.kind = 50) (hdone : done.answers <+: [r])
    (hrcode : done.flags &&& 15 = 0) :
    Unpoisoned a reach find q done ↔ (a.unspoiled reach find q).answers = [] := by
  have hok : done.flags &&& 15 ≠ 2 := by
    rw [hrcode]
    decide
  constructor
  · intro h
    refine List.eq_nil_iff_forall_not_mem.2 fun r' hr' => ?_
    have hmem := List.mem_singleton.1 (hdone.subset (h.answers r' hr'))
    obtain ⟨h47, h50⟩ := kind_of_unspoiled hr'
    rw [hmem] at h47 h50
    exact hr.elim h47 h50
  · intro hnil
    refine ⟨fun r' hr' => ?_, fun _ => hok, by rw [if_pos hkind]; exact hok⟩
    rw [hnil] at hr'
    cases hr'

/-- A completed answer is spoiled by no record exactly if its records are harmless. The message that
the loop bounded is traced back to the answer of the job (`Proxy.poll_completes`); an answer that is
an error is completed with SERVFAIL, so that the two sides are compared case by case. -/
theorem poll_unpoisoned_iff {sha1 : Bytes → Octets 20} {caches : Nat → Mdns.Cache}
    {mine : Question → List Record} {now : Nat} {p : Proxy} {started : Nat → Started}
    {out : List Completion} {done : Completion} {job : Job}
    (hpoll : (p.poll (a.answers reach sha1 caches mine now p) started).1 = .ok out)
    (hdone : done ∈ out) (hjob : p.jobs.get done.id = some job)
    (hgathers : Gathers a sha1 (caches done.id) mine now job) :
    Unpoisoned a reach (lookup (caches done.id) mine now) job.query done.answer ↔
      Harmless a reach sha1 (lookup (caches done.id) mine now) job.query := by
  obtain ⟨job', m, hjob', hbound, hm⟩ := Proxy.poll_completes hpoll done hdone
  obtain rfl : job = job' := Option.some.inj (hjob.symm.trans hjob')
  obtain ⟨soa, hsoa⟩ := Authority.soa_of_question hgathers.accepted
  obtain ⟨horiginal, hscope, domain, hdomain⟩ := Authority.domain_of_question hgathers.accepted
  have hanswer : a.answers reach sha1 caches mine now p done.id =
      a.answer reach sha1 (lookup (caches done.id) mine now)
        ((caches done.id).negative job.query.multicast now) (decide (now ≥ job.until_))
        job.query := by
    rw [Authority.answers, hjob]
  have hready : lookup (caches done.id) mine now job.query.multicast ≠ [] ∨
      (caches done.id).negative job.query.multicast now = true ∨
      decide (now ≥ job.until_) = true :=
    hgathers.ready.imp_right fun h => h.imp_right decide_eq_true
  -- A job whose answer is an error is answered with a failure.
  have hfailed : (∃ err, a.answers reach sha1 caches mine now p done.id = .error err) →
      done.answer.flags &&& 15 = 2 := by
    rintro ⟨err, herr⟩
    rw [rcode_of_boundAnswer hbound]
    rcases hm with ⟨f, hf, -⟩ | ⟨-, rfl⟩ | ⟨-, rfl⟩
    · rw [herr] at hf
      cases hf
    · exact rcode_of_failedAnswer _
    · exact rcode_of_failedAnswer _
  -- One whose answer is found gets what is found.
  have hfound : ∀ f, a.answers reach sha1 caches mine now p done.id = .ok (some f) →
      m = f.message job.query.original := by
    intro f hf
    rcases hm with ⟨f', hf', rfl⟩ | ⟨⟨err, herr⟩, -⟩ | ⟨hnone, -⟩
    · rw [hf] at hf'
      cases hf'
      rfl
    · rw [hf] at herr
      cases herr
    · rw [hf] at hnone
      cases hnone
  rw [hanswer] at hfailed hfound
  unfold Harmless
  by_cases hkind : Denies job.query
  · rw [if_pos hkind]
    have hbranch : a.answer reach sha1 _ _ _ job.query = _ :=
      Authority.answer_ready hgathers.foreign hready
    rw [if_pos hkind] at hbranch
    rw [hbranch] at hfailed hfound
    have hlimits : (∃ r, a.denial sha1 job.query
        (lookup (caches done.id) mine now job.query.multicast) reach = .ok r) ↔ _ :=
      Zone.denial_ok_iff (horiginal ▸ hscope) hdomain
    cases hdenial : a.denial sha1 job.query (lookup (caches done.id) mine now job.query.multicast)
        reach with
    | error err =>
      rw [hdenial] at hfailed hlimits
      refine iff_of_false (fun h => ?_) ?_
      · have halone := h.alone
        rw [if_pos hkind] at halone
        exact halone (hfailed ⟨err, rfl⟩)
      · rintro ⟨-, domain', hdomain', hdeniable⟩
        cases hdomain.symm.trans hdomain'
        obtain ⟨r, hr⟩ := hlimits.2 hdeniable
        cases hr
    | ok r =>
      rw [hdenial] at hfound hlimits
      obtain rfl := hfound _ rfl
      have hrcode : done.answer.flags &&& 15 = 0 :=
        (rcode_of_boundAnswer hbound).trans (rcode_of_message _ _)
      rw [unpoisoned_denial hkind (Zone.denial_kind hdenial)
        (Proxy.boundAnswer_cases hbound).1 hrcode]
      exact (and_iff_left ⟨domain, hdomain, hlimits.1 ⟨r, rfl⟩⟩).symm
  · rw [if_neg hkind]
    have hfails : ∀ e, a.Fails reach job.query e ↔ a.Unrewritable reach job.query e :=
      fun _ => Authority.fails_iff hgathers.accepted
    simp only [← hfails]
    rcases Authority.answer_cases hgathers.foreign hkind hready hsoa with
      ⟨hall, hok⟩ | ⟨⟨e, he, hfail⟩, herr⟩
    · rw [and_iff_right hall]
      obtain rfl := hfound _ hok
      rw [Authority.unspoiled, ← boundAnswer_eq_trimmed hbound]
      constructor
      · intro h
        have halone := h.alone
        rw [if_neg hkind] at halone
        exact halone
      · intro h
        have hdone' :
            done.answer = a.unspoiled reach (lookup (caches done.id) mine now) job.query := h
        rw [hdone']
        exact unpoisoned_unspoiled hkind
    · refine iff_of_false (fun h => ?_) fun h => h.1 e he hfail
      have halone := h.alone
      rw [if_neg hkind] at halone
      have hrcode := hfailed herr
      rw [halone, Authority.unspoiled, trimmed_rcode, rcode_of_message] at hrcode
      cases hrcode

end

/-! ## A spoiled answer -/

/-- A zone with one domain. -/
def homeZone : Authority where
  service := ⟨[ascii "home", ascii "arpa"], by decide⟩
  host := none
  reverse := []
  nameservers := [⟨[ascii "ns", ascii "home", ascii "arpa"], by decide⟩]
  mailbox := ⟨[ascii "root", ascii "home", ascii "arpa"], by decide⟩
  named := by simp

/-- The web servers of the zone, and of the link. -/
def webQuery : TranslatedQuestion where
  original := ⟨⟨[ascii "_http", ascii "_tcp", ascii "home", ascii "arpa"], by decide⟩, 12, 1⟩
  multicast := ⟨⟨[ascii "_http", ascii "_tcp", ascii "local"], by decide⟩, 12, 1⟩
  scope := .service

/-- The proxy that was asked for them. -/
def webProxy : Proxy where
  zone := homeZone.toZone
  jobs := OrdMap.empty.insert 1 ⟨webQuery, 6000, none, false, jobBytes webQuery⟩
  sequence := 1
  again := false

/-- The name of a web server. -/
def shortTarget : Name := ⟨[ascii "a", ascii "_http", ascii "_tcp", ascii "local"], by decide⟩

/-- A name of 255 octets. -/
def longTarget : Name := ⟨[zeros 63, zeros 63, zeros 63, zeros 55, ascii "local"], by decide⟩

/-- What a message that points to some web servers leaves of an empty cache. -/
def learnedPointers (targets : List Name) : Mdns.Cache :=
  (Mdns.Cache.new.receive { Message.new 0 0x8400 with
    answers := targets.map fun n => ⟨webQuery.multicast.name, 12, 1, 120, .name n⟩ } 65002 0
    fun _ _ => .ok 0).2

/-- A client that is not on the link. -/
def remoteReach : Reachability := ⟨false, false, false, false, false⟩

/-- What the proxy completes after such a message. -/
def webRun (targets : List Name) : Except IoError (List Completion) :=
  (webProxy.poll (homeZone.answers remoteReach (fun _ => ⟨zeros 20, by decide⟩)
    (fun _ => learnedPointers targets) (fun _ => []) 0 webProxy) fun _ => .wouldBlock).1

/-- What a question finds after such a message. -/
def webFind (targets : List Name) : Question → List Record :=
  lookup (learnedPointers targets) (fun _ => []) 0

/-- Every target that was learned is reached from the record that names it. -/
theorem learnedPointers_reached (targets : List Name) : (learnedPointers targets).Reached :=
  .receive _ _ _ _ .new

/-- The condition is met by a question whose records can all be rewritten, as soon as there are
any. -/
theorem webQuery_gathers {targets : List Name}
    (h : (webFind targets webQuery.multicast).length ≠ 0) :
    Gathers homeZone (fun _ => ⟨zeros 20, by decide⟩) (learnedPointers targets) (fun _ => []) 0
      ⟨webQuery, 6000, none, false, jobBytes webQuery⟩ where
  accepted := rfl
  foreign := rfl
  ready := .inl fun hnil => h (by rw [webFind, hnil]; rfl)

/-- A run that completes one job, by its number and its flags. -/
theorem webRun_ok {targets : List Name} (flags : UInt16)
    (h : (webRun targets).toOption.map (fun out => out.map fun d => (d.id, d.answer.flags)) =
      some [(1, flags)]) :
    ∃ done, webRun targets = .ok [done] ∧ done.id = 1 ∧ done.answer.flags = flags := by
  cases hr : webRun targets with
  | error e =>
    rw [hr] at h
    cases h
  | ok out =>
    rw [hr] at h
    obtain ⟨done, hout, hdone⟩ := List.map_eq_singleton_iff.1 (Option.some.inj h)
    obtain ⟨hid, hflags⟩ := Prod.mk.inj hdone
    exact ⟨done, by rw [hout], hid, hflags⟩

/-- With a second pointer, to a name that becomes too long in the zone, the answer is a failure
without the first one. -/
theorem webRun_spoiled : (learnedPointers [shortTarget, longTarget]).Reached ∧
    Gathers homeZone (fun _ => ⟨zeros 20, by decide⟩) (learnedPointers [shortTarget, longTarget])
      (fun _ => []) 0 ⟨webQuery, 6000, none, false, jobBytes webQuery⟩ ∧
    ∃ done, webRun [shortTarget, longTarget] = .ok [done] ∧ done.id = 1 ∧
      done.answer.flags &&& 15 = 2 ∧
      ¬ Unpoisoned homeZone remoteReach (webFind [shortTarget, longTarget]) webQuery
        done.answer := by
  obtain ⟨done, hrun, hid, hflags⟩ : ∃ done, webRun [shortTarget, longTarget] = .ok [done] ∧
      done.id = 1 ∧ done.answer.flags = 0x8402 := webRun_ok _ (by decide +kernel)
  have hmatched : ((matching remoteReach (webFind [shortTarget, longTarget]) webQuery).filterMap
      fun r => homeZone.rewritten remoteReach webQuery (r, false)) ≠ [] := by
    intro h
    have hlen : ((matching remoteReach (webFind [shortTarget, longTarget]) webQuery).filterMap
      fun r => homeZone.rewritten remoteReach webQuery (r, false)).length ≠ 0 := by decide +kernel
    exact hlen (by rw [h]; rfl)
  have hfailed : done.answer.flags &&& 15 = 2 := by
    rw [hflags]
    decide
  exact ⟨learnedPointers_reached _, webQuery_gathers (by decide +kernel), done, hrun, hid, hfailed,
    fun h => h.served hmatched hfailed⟩

/-- A pointer to a name that is short enough is harmless. -/
theorem webFind_harmless : Harmless homeZone remoteReach (fun _ => ⟨zeros 20, by decide⟩)
    (webFind [shortTarget]) webQuery := by
  rw [Harmless, if_neg (by decide)]
  refine ⟨fun e he hbad => ?_, by decide +kernel⟩
  have hall : ((gathered remoteReach (webFind [shortTarget]) webQuery).records.all fun e =>
      (homeZone.rewrite e.1 webQuery e.2 remoteReach).isOk) = true := by
    decide +kernel
  have hok := List.all_eq_true.1 hall e he
  obtain ⟨err, herr⟩ := (Authority.fails_iff rfl).2 hbad
  rw [herr] at hok
  cases hok

/-- The theorem applied to a pointer to a name that is short enough: the answer is completed, and
none of its records spoils it. -/
theorem poll_unpoisoned_iff_printer : ∃ done, webRun [shortTarget] = .ok [done] ∧
    Unpoisoned homeZone remoteReach (webFind [shortTarget]) webQuery done.answer := by
  obtain ⟨done, hrun, hid, -⟩ : ∃ done, webRun [shortTarget] = .ok [done] ∧ done.id = 1 ∧
      done.answer.flags = 0x8400 := webRun_ok _ (by decide +kernel)
  have hjob : webProxy.jobs.get done.id =
      some ⟨webQuery, 6000, none, false, jobBytes webQuery⟩ := by
    rw [hid]
    rfl
  have hfound : (webFind [shortTarget] webQuery.multicast).length ≠ 0 := by decide +kernel
  exact ⟨done, hrun, (poll_unpoisoned_iff hrun (List.mem_singleton_self done) hjob
    (webQuery_gathers hfound)).2 webFind_harmless⟩

end SnacMachine.Discovery
