import SnacMachine.Mdns.Advertise
import SnacMachine.Mdns.Cache
import SnacMachine.Lib.Total
import SnacMachine.Net.Address

/-!
# Jobs of the Discovery Proxy

The part of `discovery_proxy.rs` and `discovery_proxy/query.rs` that the resolver is charged for:
how a question of a served zone becomes a multicast question, and the jobs that wait for its answer.
Which records the proxy finds for a job among the learned ones and whether the multicast querier
takes a question are parameters of `Proxy.poll`.
-/

namespace SnacMachine.Discovery

open Dns Mdns

/-- Which of its names a question falls under. Reference: `Scope` (`discovery_proxy.rs:28`). -/
inductive Scope
  | service
  | host
  | reverse (index : Nat)
  deriving DecidableEq

/-- Reference: `TranslatedQuestion` (`discovery_proxy.rs:34`). -/
structure TranslatedQuestion where
  original : Question
  multicast : Question
  scope : Scope

/-- The names of a served zone. Reference: `Zone` (`discovery_proxy.rs:40`), whose other fields are
for the answers. -/
structure Zone where
  service : Name
  host : Option Name
  reverse : List Name

namespace Zone

/-- The scopes of a zone and their domains, in the order in which they are tried. Reference:
`discovery_proxy.rs:83`. -/
def domains (z : Zone) : List (Scope × Name) :=
  (.service, z.service) :: (z.host.toList.map fun h => (.host, h)) ++
    z.reverse.zipIdx.map fun e => (.reverse e.2, e.1)

/-- The last of the longest. -/
def longest : List (Scope × Name) → Option (Scope × Name)
  | [] => none
  | e :: es => match longest es with
    | none => some e
    | some e' => some (if e'.2.labels.length < e.2.labels.length then e else e')

/-- Reference: `Zone::scope` (`discovery_proxy.rs:81`). -/
def scope (z : Zone) (name : Name) : Option Scope :=
  (longest (z.domains.filter fun e => Srp.within name e.2)).map Prod.fst

/-- Reference: `Zone::domain` (`discovery_proxy.rs:96`). -/
def domain (z : Zone) : Scope → Option Name
  | .service => some z.service
  | .host => z.host
  | .reverse i => z.reverse[i]?

/-- The multicast namespace. -/
def localName : Name := ⟨[ascii "local"], by decide⟩

/-- The translation of a question: none where the source fails, `some none` where the name is of
no scope. Reference: `Zone::question` (`discovery_proxy.rs:106`). -/
def question (z : Zone) (q : Question) : Option (Option TranslatedQuestion) :=
  if q.cls ≠ 1 ∨ q.kind = 0 then none
  else match z.scope q.name with
    | none => some none
    | some scope => do
      let name ← match scope with
        | .reverse _ => some q.name
        | scope => do
          let domain ← z.domain scope
          replaceSuffix q.name domain localName
      let kind := if q.kind = 47 ∨ q.kind = 50 then 255 else q.kind
      some (some ⟨q, { q with name, kind }, scope⟩)

end Zone

/-- Reference: `Job` (`discovery_proxy/query.rs:11`). -/
structure Job where
  query : TranslatedQuestion
  until_ : Nat
  multicast : Option Nat
  cancelled : Bool
  bytes : Nat

/-- Reference: `Completion` (`discovery_proxy/query.rs:18`). -/
structure Completion where
  id : Nat
  answer : Message

/-- Reference: `Proxy` (`discovery_proxy/query.rs:22`). -/
structure Proxy where
  zone : Zone
  jobs : OrdMap Nat Job
  sequence : Nat
  again : Bool

/-- Reference: `capacity` (`discovery_proxy/query.rs:29`). -/
def capacity : IoError := ⟨.wouldBlock, "Discovery Proxy query capacity"⟩
/-- Reference: `invalid` (`discovery_proxy.rs:13`). -/
def invalid : IoError := ⟨.invalidData, "invalid Discovery Proxy configuration or record"⟩

/-- How the multicast querier takes a question. -/
inductive Started
  | ok (id : Nat)
  | wouldBlock
  | failed (e : IoError)

/-- What a name of a job is charged for. Reference: `discovery_proxy/query.rs:70`. -/
def nameCharge (n : Name) : Nat := n.canonical.length * 4 + n.labels.length * 128

/-- What a job is charged for. Reference: `discovery_proxy/query.rs:68`. -/
def jobBytes (q : TranslatedQuestion) : Nat :=
  2048 + (nameCharge q.original.name + nameCharge q.multicast.name)

/-- Reference: `answer_cost` (`discovery_proxy/query.rs:333`). -/
def answerCost (m : Message) : Nat :=
  m.records.foldl (fun n r => n + (charge r).getD 4194304) 4096

/-- Whether an answer is small enough. Reference: `discovery_proxy/query.rs:344`. -/
def answerFits (m : Message) : Bool :=
  decide (answerCost m ≤ 4194304) &&
    match m.encodeContext .unicast with
    | some b => decide (b.length ≤ 65535)
    | none => false

/-- An answer without its last record. Reference: `discovery_proxy/query.rs:351`. -/
def popRecord (m : Message) : Option Message :=
  if m.additional ≠ [] then some { m with additional := m.additional.dropLast }
  else if m.answers ≠ [] then some { m with answers := m.answers.dropLast }
  else if m.authority ≠ [] then some { m with authority := m.authority.dropLast }
  else none

/-- The loop of `bound_answer` (`discovery_proxy/query.rs:343`); a record is dropped in every round,
so that there are at most as many as there are records. -/
def boundAnswer : (fuel : Nat) → Message → Option Message
  | fuel, m =>
    if answerFits m then some m
    else match popRecord { m with flags := m.flags ||| 0x200 }, fuel with
      | some m, fuel + 1 => boundAnswer fuel m
      | _, _ => none

/-- What the proxy finds for a job: the records of each section, and whether there were too many. -/
structure Found where
  truncated : Bool
  answers : List Record
  authority : List Record
  additional : List Record

/-- The answer to a question that the proxy makes of what it finds. Reference: `Proxy::answer`
(`discovery_proxy/query.rs:178`). -/
def Found.message (f : Found) (q : Question) : Message :=
  { Message.new 0 (if f.truncated then 0x8600 else 0x8400) with
    questions := [q]
    answers := f.answers
    authority := f.authority
    additional := f.additional }

/-- An answer that says that the server failed. Reference: `discovery_proxy/query.rs:134`. -/
def failedAnswer (q : Question) : Message := { Message.new 0 0x8402 with questions := [q] }

namespace Proxy

/-- Reference: `Proxy::accepts` (`discovery_proxy/query.rs:42`). -/
def accepts (p : Proxy) (q : Question) : Bool :=
  match p.zone.question q with
  | some (some _) => true
  | _ => false

/-- Reference: `Proxy::retain_jobs` (`discovery_proxy/query.rs:45`). -/
def retainJobs (p : Proxy) (active : Nat → Bool) : Proxy :=
  { p with jobs := p.jobs.mapValues fun id j =>
      if active id then j else { j with cancelled := true } }

/-- The octets that the jobs are charged for. Reference: `Proxy::counts`
(`discovery_proxy/query.rs:55`). -/
def bytes (p : Proxy) : Nat := p.jobs.total fun _ j => j.bytes

/-- Starts a job, or joins one that waits for the same answer. Reference: `Proxy::start`
(`discovery_proxy/query.rs:58`). -/
def start (p : Proxy) (q : Question) (now : Nat) : Except IoError (Nat × Proxy) :=
  match p.zone.question q with
  | some (some query) =>
    match p.jobs.entries.find? fun e =>
        !e.2.cancelled && decide (e.2.until_ > now) && e.2.query.original == q with
    | some (id, _) => .ok (id, p)
    | none =>
      if p.jobs.size = 128 ∨ p.bytes + jobBytes query > 4194304 then .error capacity
      else if p.sequence = u64Max then .error capacity
      else .ok (p.sequence + 1, { p with
        sequence := p.sequence + 1
        jobs := p.jobs.insert (p.sequence + 1)
          ⟨query, satAdd now 6000, none, false, jobBytes query⟩ })
  | _ => .error invalid

/-- The loop of `poll_with_local` (`discovery_proxy/query.rs:119`). What is found for each job, an
error included, and how the querier takes its question are given. -/
def pollLoop (answer : Nat → Except IoError (Option Found)) (started : Nat → Started) :
    List Nat → Proxy → (out : List Completion) → (bytes : Nat) →
    Except IoError (List Completion) × Proxy
  | [], p, out, _ => (.ok out, p)
  | id :: ids, p, out, bytes =>
    if out.length = 16 then (.ok out, { p with again := true })
    else match p.jobs.get id with
      | none => pollLoop answer started ids p out bytes
      | some job =>
        let rest := { p with jobs := p.jobs.remove id }
        if job.cancelled then pollLoop answer started ids rest out bytes
        else
          let failed := failedAnswer job.query.original
          let found := match answer id with
            | .ok a => a.map fun f => f.message job.query.original
            | .error _ => some failed
          -- A question that the querier refuses for want of room is answered at once.
          let next : Except IoError (Option Message × Job) := match found, job.multicast with
            | none, none => match started id with
              | .ok q => .ok (none, { job with multicast := some q })
              | .wouldBlock => .ok (some failed, job)
              | .failed e => .error e
            | found, _ => .ok (found, job)
          match next with
          | .error e => (.error e, p)
          | .ok (none, job) =>
            pollLoop answer started ids { rest with jobs := rest.jobs.insert id job } out bytes
          | .ok (some m, job) => match boundAnswer m.records.length m with
            | none => (.error invalid, rest)
            | some m =>
              if bytes + answerCost m > 4194304 ∧ out ≠ [] then
                (.ok out, { rest with jobs := rest.jobs.insert id job, again := true })
              else
                pollLoop answer started ids rest (out ++ [⟨id, m⟩]) (bytes + answerCost m)

/-- Reference: `Proxy::poll_with_local` (`discovery_proxy/query.rs:112`). -/
def poll (p : Proxy) (answer : Nat → Except IoError (Option Found)) (started : Nat → Started) :
    Except IoError (List Completion) × Proxy :=
  pollLoop answer started p.jobs.keys { p with again := false } [] 0

/-! ## What jobs weigh -/

/-- Cancelling a job does not return what is charged for it. -/
@[simp] theorem bytes_retainJobs (p : Proxy) (active : Nat → Bool) :
    (p.retainJobs active).bytes = p.bytes := by
  unfold bytes retainJobs
  rw [OrdMap.total_mapValues]
  refine OrdMap.total_congr fun k j _ => ?_
  split
  · rfl
  · rfl

/-- The numbers of the jobs were given out. -/
def Numbered (p : Proxy) : Prop := ∀ id job, p.jobs.get id = some job → id ≤ p.sequence

/-- Cancelling jobs neither adds nor renumbers any. -/
theorem Numbered.retainJobs {p : Proxy} (h : p.Numbered) (active : Nat → Bool) :
    (p.retainJobs active).Numbered := by
  intro id job hjob
  unfold Proxy.retainJobs at hjob
  rw [OrdMap.get_mapValues_eq] at hjob
  obtain ⟨job, hjob, -⟩ := Option.map_eq_some_iff.1 hjob
  exact h id job hjob

/-- A number that was given out to a job which is gone. -/
def Gone (p : Proxy) (id : Nat) : Prop := id ≤ p.sequence ∧ p.jobs.get id = none

/-- What starting a job leaves of a proxy, which weighs at most what its question does more. The
number of the job is not that of a job which is gone. -/
structure StartedAs (p : Proxy) (q : Question) (id : Nat) (p' : Proxy) : Prop where
  weight : ∃ query, p.zone.question q = some (some query) ∧ p'.bytes ≤ p.bytes + jobBytes query
  zone : p'.zone = p.zone
  numbered : p.Numbered → p'.Numbered
  gone : ∀ i, p.Gone i → id ≠ i ∧ p'.Gone i

/-- What it takes for a job to start: the question is of the zone and there is room; the job has a
new number. -/
theorem start_eq_ok {p p' : Proxy} {q : Question} {now id : Nat}
    (h : p.start q now = .ok (id, p')) :
    StartedAs p q id p' := by
  unfold start at h
  split at h
  · next query hquery =>
    split at h
    · next job hfind =>
      cases h
      refine ⟨⟨query, hquery, Nat.le_add_right _ _⟩, rfl, fun hp => hp, fun i hi => ⟨?_, hi⟩⟩
      rintro rfl
      have hjob := OrdMap.mem_iff_get.1 (List.mem_of_find?_eq_some hfind)
      exact absurd (hi.2.symm.trans hjob) (Option.some_ne_none job).symm
    · split at h
      · cases h
      · split at h
        · cases h
        · cases h
          refine ⟨⟨query, hquery, OrdMap.total_insert_le (f := fun _ (j : Job) => j.bytes) _ _⟩,
            rfl, fun hp i job hi => ?_, fun i ⟨hle, hnone⟩ => ?_⟩
          · simp only [OrdMap.get_insert_eq] at hi
            split at hi
            · next heq => exact Nat.le_of_eq heq.symm
            · exact Nat.le_succ_of_le (hp i job hi)
          · have hne : p.sequence + 1 ≠ i := by omega
            refine ⟨hne, Nat.le_succ_of_le hle, ?_⟩
            simp only [OrdMap.get_insert_eq, if_neg hne]
            exact hnone
  · cases h

/-- What dropping the last record changes. The source drops from the additional section first, then
from the answers and then from the authority section, so the answers that are left are always a
prefix of those before. -/
theorem popRecord_cases {m x : Message}
    (h : popRecord { m with flags := m.flags ||| 0x200 } = some x) :
    x.answers <+: m.answers ∧ x.flags = m.flags ||| 0x200 ∧
    x.records.length < m.records.length := by
  have hlen : ∀ {l : List Record}, l ≠ [] → l.dropLast.length < l.length := by
    intro l hl
    have := List.length_pos_iff.2 hl
    rw [List.length_dropLast]
    omega
  unfold popRecord at h
  split at h
  · next hadditional =>
    cases h
    have := hlen hadditional
    refine ⟨List.prefix_rfl, rfl, ?_⟩
    simp only [Message.records, List.length_append] at this ⊢
    omega
  · split at h
    · next hanswers =>
      cases h
      have := hlen hanswers
      refine ⟨List.dropLast_prefix _, rfl, ?_⟩
      simp only [Message.records, List.length_append] at this ⊢
      omega
    · split at h
      · next hauthority =>
        cases h
        have := hlen hauthority
        refine ⟨List.prefix_rfl, rfl, ?_⟩
        simp only [Message.records, List.length_append] at this ⊢
        omega
      · cases h

/-- What dropping records from the end changes. By recursion on the fuel, with `popRecord_cases` for
the one record of each turn. -/
theorem boundAnswer_cases : ∀ {fuel : Nat} {m m' : Message}, boundAnswer fuel m = some m' →
    m'.answers <+: m.answers ∧ (m' = m ∨ m'.flags = m.flags ||| 0x200) ∧
      m'.records.length ≤ m.records.length
  | fuel, m, m', h => by
    unfold boundAnswer at h
    split at h
    · cases h
      exact ⟨List.prefix_rfl, .inl rfl, Nat.le_refl _⟩
    · split at h
      · next x n hpop =>
        obtain ⟨hkept, hflags, hlen⟩ := boundAnswer_cases h
        obtain ⟨hx, hxflags, hxlen⟩ := popRecord_cases hpop
        refine ⟨hkept.trans hx, .inr ?_, by omega⟩
        rcases hflags with rfl | hflags
        · exact hxflags
        · rw [hflags, hxflags, UInt16.or_assoc, UInt16.or_self]
      · cases h

/-- A job that is put back under its number weighs what it did. -/
theorem bytes_putBack {p : Proxy} {id : Nat} {job job' : Job} (hjob : p.jobs.get id = some job)
    (hbytes : job'.bytes = job.bytes) :
    bytes { p with jobs := (p.jobs.remove id).insert id job' } ≤ p.bytes := by
  have hremove := OrdMap.total_remove (f := fun _ (j : Job) => j.bytes) hjob
  have hinsert := OrdMap.total_insert_le (m := p.jobs.remove id) (f := fun _ (j : Job) =>
    j.bytes) id job'
  unfold bytes
  simp only at *
  omega

/-- Removing a job returns what was charged for it. -/
theorem bytes_remove (p : Proxy) (id : Nat) : bytes { p with jobs := p.jobs.remove id } ≤ p.bytes :=
  OrdMap.total_retain_le p.jobs _ fun _ j => j.bytes

/-! ## One round of the loop -/

/-- A message that a job is completed with, before it is cut: what was found for it, or a failure,
which says that nothing could be made of what was found, or that the question was refused. -/
def Reply (answer : Nat → Except IoError (Option Found)) (id : Nat) (job : Job)
    (m : Message) : Prop :=
  (∃ f, answer id = .ok (some f) ∧ m = f.message job.query.original) ∨
    (∃ e, answer id = .error e) ∧ m = failedAnswer job.query.original ∨
    answer id = .ok none ∧ m = failedAnswer job.query.original

/-- What the loop goes on with after a number: the proxy and the completed answers. -/
inductive Visited (answer : Nat → Except IoError (Option Found)) (p : Proxy) (id : Nat)
    (out : List Completion) : Proxy → List Completion → Prop
  | absent : Visited answer p id out p out
  | cancelled : Visited answer p id out { p with jobs := p.jobs.remove id } out
  | waiting {job job' : Job} (hjob : p.jobs.get id = some job) (hbytes : job'.bytes = job.bytes) :
      Visited answer p id out { p with jobs := (p.jobs.remove id).insert id job' } out
  | done {job : Job} {m x : Message} (hjob : p.jobs.get id = some job) (hm : Reply answer id job m)
      (hbound : boundAnswer m.records.length m = some x) :
      Visited answer p id out { p with jobs := p.jobs.remove id } (out ++ [⟨id, x⟩])

/-- How the loop ends before the last number: with what is completed so far, or with an error. -/
inductive Halted (p : Proxy) (id : Nat) (out : List Completion) :
    Except IoError (List Completion) × Proxy → Prop
  | full : Halted p id out (.ok out, { p with again := true })
  | heavy {job : Job} (hjob : p.jobs.get id = some job) :
      Halted p id out (.ok out, { p with jobs := (p.jobs.remove id).insert id job, again := true })
  | refused (e : IoError) : Halted p id out (.error e, p)
  | stuck (e : IoError) : Halted p id out (.error e, { p with jobs := p.jobs.remove id })

/-- The loop visits a number and goes on, or ends there. This is the step of the loop: every branch
of its body is a `Visited` or a `Halted`, and the facts about whole polls are inductions over it. -/
theorem pollLoop_cons (answer : Nat → Except IoError (Option Found)) (started : Nat → Started)
    (id : Nat) (ids : List Nat) (p : Proxy) (out : List Completion) (n : Nat) :
    (∃ p' out' n', Visited answer p id out p' out' ∧
      pollLoop answer started (id :: ids) p out n = pollLoop answer started ids p' out' n') ∨
    Halted p id out (pollLoop answer started (id :: ids) p out n) := by
  rw [pollLoop]
  split
  · exact .inr .full
  · split
    · exact .inl ⟨p, out, n, .absent, rfl⟩
    · next job hjob =>
      simp only
      split
      · exact .inl ⟨_, out, n, .cancelled, rfl⟩
      · -- A job that is done leaves the table, or waits for the next round.
        have send : ∀ m, Reply answer id job m → ∀ r,
            r = (match boundAnswer m.records.length m with
              | none => ((.error invalid, { p with jobs := p.jobs.remove id }) :
                  Except IoError (List Completion) × Proxy)
              | some m =>
                if n + answerCost m > 4194304 ∧ out ≠ [] then
                  (.ok out, { p with jobs := (p.jobs.remove id).insert id job, again := true })
                else
                  pollLoop answer started ids { p with jobs := p.jobs.remove id }
                    (out ++ [(⟨id, m⟩ : Completion)]) (n + answerCost m)) →
            (∃ p' out' n', Visited answer p id out p' out' ∧
              r = pollLoop answer started ids p' out' n') ∨ Halted p id out r := by
          rintro m hm r rfl
          cases hbound : boundAnswer m.records.length m with
          | none => exact .inr (.stuck invalid)
          | some x =>
            simp only
            split
            · exact .inr (.heavy hjob)
            · exact .inl ⟨_, _, _, .done hjob hm hbound, rfl⟩
        cases hanswer : answer id with
        | error e => exact send _ (.inr (.inl ⟨⟨e, hanswer⟩, rfl⟩)) _ rfl
        | ok found =>
          cases found with
          | some f => exact send _ (.inl ⟨f, hanswer, rfl⟩) _ rfl
          | none =>
            cases job.multicast with
            | some q => exact .inl ⟨_, out, n, .waiting hjob rfl, rfl⟩
            | none =>
              cases started id with
              | ok q =>
                have hjob' : ({ job with multicast := some q } : Job).bytes = job.bytes := rfl
                exact .inl ⟨_, out, n, .waiting hjob hjob', rfl⟩
              | wouldBlock => exact send _ (.inr (.inr ⟨hanswer, rfl⟩)) _ rfl
              | failed e => exact .inr (.refused e)

/-! ## What polling leaves -/

/-- What polling leaves of a proxy: the same zone, and jobs that weigh no more. -/
structure Polled (p p' : Proxy) : Prop where
  zone : p'.zone = p.zone
  bytes : p'.bytes ≤ p.bytes

section
variable {answer : Nat → Except IoError (Option Found)} {p p' : Proxy} {id : Nat}
  {out out' : List Completion}

/-- A visit keeps the zone, and what is charged for the jobs does not grow. -/
theorem Visited.polled (h : Visited answer p id out p' out') : Polled p p' := by
  cases h with
  | absent => exact ⟨rfl, Nat.le_refl _⟩
  | cancelled | done => exact ⟨rfl, p.bytes_remove id⟩
  | waiting hjob hbytes => exact ⟨rfl, bytes_putBack hjob hbytes⟩

/-- So does a visit at which the round halts. -/
theorem Halted.polled {r : Except IoError (List Completion) × Proxy} (h : Halted p id out r) :
    Polled p r.2 := by
  cases h with
  | full | refused => exact ⟨rfl, Nat.le_refl _⟩
  | heavy hjob => exact ⟨rfl, bytes_putBack hjob rfl⟩
  | stuck => exact ⟨rfl, p.bytes_remove id⟩

end

/-- A round over the jobs keeps the zone and adds no charge; the induction is on the jobs not yet
visited. -/
theorem pollLoop_polled (answer : Nat → Except IoError (Option Found)) (started : Nat → Started)
    (ids : List Nat) (p : Proxy) (out : List Completion) (n : Nat) :
    Polled p (pollLoop answer started ids p out n).2 := by
  induction ids generalizing p out n with
  | nil => exact ⟨rfl, Nat.le_refl _⟩
  | cons id ids ih =>
    rcases pollLoop_cons answer started id ids p out n with ⟨p', out', n', hvisited, heq⟩ | hhalted
    · have hhead := hvisited.polled
      have htail := ih p' out' n'
      rw [heq]
      exact ⟨htail.zone.trans hhead.zone, Nat.le_trans htail.bytes hhead.bytes⟩
    · exact hhalted.polled

/-- Polling keeps the zone, and charges for no more. -/
theorem poll_polled (p : Proxy) (answer : Nat → Except IoError (Option Found))
    (started : Nat → Started) : Polled p (p.poll answer started).2 :=
  have h := pollLoop_polled answer started p.jobs.keys { p with again := false } [] 0
  ⟨h.zone, h.bytes⟩

/-! ## Jobs that are gone -/

/-- The jobs are numbered, and those that were completed are gone. -/
def Spent (p : Proxy) (out : List Completion) : Prop := p.Numbered ∧ ∀ done ∈ out, p.Gone done.id

/-- A visit completes a job by taking it out, so no job is both completed and waiting. The one visit
that puts a job back gives it its own number, and that number was not completed, since it was
there. -/
theorem Visited.spent {answer : Nat → Except IoError (Option Found)} {p p' : Proxy} {id : Nat}
    {out out' : List Completion} (h : Visited answer p id out p' out') (hp : Spent p out) :
    Spent p' out' := by
  obtain ⟨hnumbered, hgone⟩ := hp
  have hremove : ∀ i, p.jobs.get i = none → (p.jobs.remove id).get i = none := by
    intro i hi
    rw [OrdMap.get_remove_eq, hi, ite_self]
  have hfewer : Numbered { p with jobs := p.jobs.remove id } := by
    intro i job hi
    simp only [OrdMap.get_remove_eq] at hi
    split at hi
    · cases hi
    · exact hnumbered i job hi
  cases h with
  | absent => exact ⟨hnumbered, hgone⟩
  | cancelled => exact ⟨hfewer, fun done hd => ⟨(hgone done hd).1, hremove _ (hgone done hd).2⟩⟩
  | waiting hjob hbytes =>
    refine ⟨fun i job hi => ?_, fun done hd => ⟨(hgone done hd).1, ?_⟩⟩
    · simp only [OrdMap.get_insert_eq] at hi
      split at hi
      · next heq =>
        rw [← heq]
        exact hnumbered id _ hjob
      · exact hfewer i job hi
    · have hne : id ≠ done.id := fun heq => by
        rw [heq, (hgone done hd).2] at hjob
        cases hjob
      simp only [OrdMap.get_insert_eq, if_neg hne]
      exact hremove _ (hgone done hd).2
  | done hjob hm hbound =>
    refine ⟨hfewer, fun done hd => ?_⟩
    rcases List.mem_append.1 hd with hd | hd
    · exact ⟨(hgone done hd).1, hremove _ (hgone done hd).2⟩
    · rw [List.mem_singleton.1 hd]
      refine ⟨hnumbered id _ hjob, ?_⟩
      simp only [OrdMap.get_remove_eq, if_true]

/-- Where the loop ends before the last number, a job that was put back is none of those
completed. -/
theorem Halted.spent {p : Proxy} {id : Nat} {out : List Completion}
    {r : Except IoError (List Completion) × Proxy} (h : Halted p id out r) (hp : Spent p out) :
    r.2.Numbered ∧ ∀ out', r.1 = .ok out' → Spent r.2 out' := by
  cases h with
  | full =>
    refine ⟨hp.1, fun out' h => ?_⟩
    cases h
    exact hp
  | heavy hjob =>
    have hvisited : Visited (fun _ => .ok none) p id out _ out := .waiting hjob rfl
    have hback := hvisited.spent hp
    refine ⟨hback.1, fun out' h => ?_⟩
    cases h
    exact hback
  | refused e => exact ⟨hp.1, fun out' h => nomatch h⟩
  | stuck e =>
    have hvisited : Visited (fun _ => .ok none) p id out _ out := .cancelled
    have hfewer := hvisited.spent hp
    exact ⟨hfewer.1, fun out' h => nomatch h⟩

/-- Every job that a round completes is gone after it, and no number is given again; the induction
is on the jobs not yet visited. -/
theorem pollLoop_spent (answer : Nat → Except IoError (Option Found)) (started : Nat → Started)
    (ids : List Nat) (p : Proxy) (out : List Completion) (n : Nat) (hp : Spent p out) :
    (pollLoop answer started ids p out n).2.Numbered ∧
      ∀ out', (pollLoop answer started ids p out n).1 = .ok out' →
        Spent (pollLoop answer started ids p out n).2 out' := by
  induction ids generalizing p out n with
  | nil =>
    refine ⟨hp.1, fun out' h => ?_⟩
    cases h
    exact hp
  | cons id ids ih =>
    rcases pollLoop_cons answer started id ids p out n with ⟨p', out', n', hvisited, heq⟩ | hhalted
    · rw [heq]
      exact ih p' out' n' (hvisited.spent hp)
    · exact hhalted.spent hp

/-- Polling takes out the jobs that it completes. -/
theorem poll_spent {p : Proxy} (hp : p.Numbered) (answer : Nat → Except IoError (Option Found))
    (started : Nat → Started) :
    (p.poll answer started).2.Numbered ∧
      ∀ out, (p.poll answer started).1 = .ok out → Spent (p.poll answer started).2 out :=
  pollLoop_spent answer started p.jobs.keys { p with again := false } [] 0
    ⟨hp, fun _ h => absurd h List.not_mem_nil⟩

/-! ## Where completed answers come from -/

/-- Where a completed answer comes from. -/
def Completes (answer : Nat → Except IoError (Option Found)) (p : Proxy)
    (done : Completion) : Prop :=
  ∃ job m, p.jobs.get done.id = some job ∧ boundAnswer m.records.length m = some done.answer ∧
    Reply answer done.id job m

/-- A visit completes what its job says, and leaves the other jobs. By the cases of a visit, each of
which takes the job out, puts it back or answers it. -/
theorem Visited.completes {answer : Nat → Except IoError (Option Found)}
    {p p' p₀ : Proxy} {id : Nat} {out out' : List Completion} (h : Visited answer p id out p' out')
    (hget : p.jobs.get id = p₀.jobs.get id) (hout : ∀ done ∈ out, Completes answer p₀ done) :
    (∀ i, i ≠ id → p'.jobs.get i = p.jobs.get i) ∧ ∀ done ∈ out', Completes answer p₀ done := by
  have hremove : ∀ i, i ≠ id → (p.jobs.remove id).get i = p.jobs.get i := by
    intro i hi
    rw [OrdMap.get_remove_eq, if_neg hi]
  cases h with
  | absent => exact ⟨fun _ _ => rfl, hout⟩
  | cancelled => exact ⟨hremove, hout⟩
  | waiting hjob hbytes =>
    refine ⟨fun i hi => ?_, hout⟩
    show ((p.jobs.remove id).insert id _).get i = _
    rw [OrdMap.get_insert_eq, if_neg hi.symm, hremove i hi]
  | done hjob hm hbound =>
    refine ⟨hremove, fun d hd => ?_⟩
    rcases List.mem_append.1 hd with hd | hd
    · exact hout d hd
    · rw [List.mem_singleton.1 hd]
      exact ⟨_, _, hget.symm.trans hjob, hbound, hm⟩

/-- Every completion of a round belongs to one job that was there before it; the induction keeps the
jobs that are not yet visited as they were. -/
theorem pollLoop_completes (answer : Nat → Except IoError (Option Found)) (started : Nat → Started)
    (p₀ : Proxy) (ids : List Nat) (p : Proxy) (out : List Completion) (n : Nat) (hnodup : ids.Nodup)
    (hjobs : ∀ id ∈ ids, p.jobs.get id = p₀.jobs.get id)
    (hout : ∀ done ∈ out, Completes answer p₀ done) (out' : List Completion)
    (h : (pollLoop answer started ids p out n).1 = .ok out') :
    ∀ done ∈ out', Completes answer p₀ done := by
  induction ids generalizing p out n with
  | nil =>
    cases h
    exact hout
  | cons id ids ih =>
    obtain ⟨hid, hnodup⟩ := List.nodup_cons.1 hnodup
    obtain ⟨hget, hrest⟩ := List.forall_mem_cons.1 hjobs
    rcases pollLoop_cons answer started id ids p out n with ⟨p', outs, n', hvisited, heq⟩ | hhalted
    · obtain ⟨hothers, hdone⟩ := hvisited.completes hget hout
      rw [heq] at h
      refine ih p' outs n' hnodup (fun i hi => ?_) hdone h
      rw [hothers i fun heq => hid (heq ▸ hi), hrest i hi]
    · generalize pollLoop answer started (id :: ids) p out n = r at h hhalted
      cases hhalted with
      | full =>
        cases h
        exact hout
      | heavy =>
        cases h
        exact hout
      | refused => cases h
      | stuck => cases h

/-- Each answer that polling completes is that of one of its jobs. -/
theorem poll_completes {answer : Nat → Except IoError (Option Found)} {started : Nat → Started}
    {p : Proxy} {out : List Completion} (h : (p.poll answer started).1 = .ok out) :
    ∀ done ∈ out, Completes answer p done :=
  pollLoop_completes answer started p p.jobs.keys { p with again := false } [] 0 p.jobs.keys_nodup
    (fun _ _ => rfl) (fun _ h => absurd h List.not_mem_nil) out h

end Proxy

end SnacMachine.Discovery
