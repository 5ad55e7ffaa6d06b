import SnacMachine.Persist.Journal

/-!
# Files that are replaced at once

The embedding of `atomic_replace` (`persist.rs:266`) as a machine that calls the operations of a
file one at a time, with a log of the calls and their answers. The operations are any: they keep a
state of their own, and a write may be short, empty, too long or fail. `Config.Ok` says how far the
log has come at each point of the function; the rest follows from it.
-/

namespace SnacMachine.Persist

/-- Reference: `AtomicFileOps` (`persist.rs:260`). -/
structure AtomicFileOps (S : Type) where
  write : S → Bytes → Except IoError Nat × S
  syncFile : S → Except IoError Unit × S
  replace : S → Except IoError Unit × S
  syncParent : S → Except IoError Unit × S

/-- A call of an operation with its answer. -/
inductive FileCall
  | write (bytes : Bytes) (answer : Except IoError Nat)
  | syncFile (answer : Except IoError Unit)
  | replace (answer : Except IoError Unit)
  | syncParent (answer : Except IoError Unit)

namespace FileCall

/-- What a call has added to the file. -/
def accepted : FileCall → Bytes
  | .write bytes (.ok n) => bytes.take n
  | _ => []

def isWrite : FileCall → Bool
  | .write _ _ => true
  | _ => false

def isReplace : FileCall → Bool
  | .replace _ => true
  | _ => false

def isInterrupted : FileCall → Bool
  | .write _ (.error e) => e.kind == .interrupted
  | _ => false

end FileCall

/-- What the writes of a log have added to the file. -/
def accepted (log : List FileCall) : Bytes := log.flatMap FileCall.accepted

/-- Where the function is: in the loop with what is left to write, before each of the last three
calls, or done. -/
inductive Phase
  | writing (rest : Bytes)
  | written
  | synced
  | replaced
  | returned (result : Except IoError Unit)

/-- The function at one moment: where it is, the state of the operations, and the calls so far. -/
structure Config (S : Type) where
  phase : Phase
  ops : S
  log : List FileCall

section Replace

variable {S : Type}

/-- Reference: `persist.rs:267`. -/
def begin_ (s : S) (bytes : Bytes) : Config S :=
  if bytes.length > maxJournalBytes then ⟨.returned (.error ⟨.other, "journal byte capacity"⟩),
    s, []⟩
  else ⟨.writing bytes, s, []⟩

/-- Where the loop goes after the answer to a write. Reference: `persist.rs:271`. -/
def afterWrite (rest : Bytes) : Except IoError Nat → Phase
  | .ok 0 => .returned (.error ⟨.writeZero, "short journal write"⟩)
  | .ok n =>
    if n ≤ rest.length then .writing (rest.drop n)
    else .returned (.error ⟨.other, "invalid journal write length"⟩)
  | .error e => if e.kind = .interrupted then .writing rest else .returned (.error e)

/-- Where the function goes after one of the calls that it does not repeat. -/
def orReturn (next : Phase) : Except IoError Unit → Phase
  | .ok () => next
  | .error e => .returned (.error e)

/-- The next call. Reference: `atomic_replace` (`persist.rs:266`). -/
def step (ops : AtomicFileOps S) (c : Config S) : Config S :=
  match c.phase with
  | .writing rest =>
    if rest = [] then { c with phase := .written }
    else
      let (answer, s) := ops.write c.ops rest
      ⟨afterWrite rest answer, s, c.log ++ [.write rest answer]⟩
  | .written =>
    let (answer, s) := ops.syncFile c.ops
    ⟨orReturn .synced answer, s, c.log ++ [.syncFile answer]⟩
  | .synced =>
    let (answer, s) := ops.replace c.ops
    ⟨orReturn .replaced answer, s, c.log ++ [.replace answer]⟩
  | .replaced =>
    let (answer, s) := ops.syncParent c.ops
    ⟨.returned answer, s, c.log ++ [.syncParent answer]⟩
  | .returned _ => c

/-- The function after a number of steps. -/
def after (ops : AtomicFileOps S) (s : S) (bytes : Bytes) (n : Nat) : Config S :=
  (step ops)^[n] (begin_ s bytes)

/-- One more step. -/
theorem after_succ (ops : AtomicFileOps S) (s : S) (bytes : Bytes) (n : Nat) :
    after ops s bytes (n + 1) = step ops (after ops s bytes n) :=
  Function.iterate_succ_apply' _ _ _

/-! ## The log -/

/-- Writes that have added some octets to the file, and nothing else. -/
structure Wrote (bytes : Bytes) (log : List FileCall) : Prop where
  writes : ∀ x ∈ log, x.isWrite = true
  accepted : accepted log = bytes

/-- The calls up to the one that makes the new file visible. -/
def Ready (bytes : Bytes) (log : List FileCall) : Prop :=
  ∃ ws, Wrote bytes ws ∧ log = ws ++ [.syncFile (.ok ())]

/-- The log of a function that has failed: no file was replaced, or a complete one was and the
failure came after that. -/
def Failed (bytes : Bytes) (log : List FileCall) : Prop :=
  (∀ x ∈ log, x.isReplace = false) ∨
    ∃ pre answer rest, Ready bytes pre ∧ log = pre ++ .replace answer :: rest ∧
      ((rest = [] ∧ ∃ e, answer = .error e) ∨ ∃ e, rest = [.syncParent (.error e)])

/-- How far the log has come at each point. -/
def Config.Ok (bytes : Bytes) (c : Config S) : Prop :=
  match c.phase with
  | .writing rest => ∃ sofar, sofar ++ rest = bytes ∧ Wrote sofar c.log
  | .written => Wrote bytes c.log
  | .synced => Ready bytes c.log
  | .replaced => ∃ pre, Ready bytes pre ∧ c.log = pre ++ [.replace (.ok ())]
  | .returned (.ok ()) =>
    ∃ pre, Ready bytes pre ∧ c.log = pre ++ [.replace (.ok ()), .syncParent (.ok ())]
  | .returned (.error _) => Failed bytes c.log

/-- At first nothing is written. -/
theorem Wrote.nil : Wrote [] [] := ⟨nofun, rfl⟩

/-- A write adds what it accepted. -/
theorem Wrote.write {bytes : Bytes} {log : List FileCall} (h : Wrote bytes log) (rest : Bytes)
    (answer : Except IoError Nat) :
    Wrote (bytes ++ (FileCall.write rest answer).accepted) (log ++ [.write rest answer]) := by
  refine ⟨fun x hx => ?_, ?_⟩
  · rcases List.mem_append.1 hx with hx | hx
    · exact h.writes x hx
    · rw [List.mem_singleton.1 hx]
      rfl
  · rw [Persist.accepted, List.flatMap_append, List.flatMap_singleton]
    exact congrArg (· ++ _) h.accepted

/-- While octets are written nothing is replaced. -/
theorem Wrote.noReplace {bytes : Bytes} {log : List FileCall} (h : Wrote bytes log) :
    ∀ x ∈ log, x.isReplace = false := by
  intro x hx
  cases x with
  | write bytes answer => rfl
  | _ => exact nomatch h.writes _ hx

/-- Until all is ready nothing is replaced. -/
theorem Ready.noReplace {bytes : Bytes} {log : List FileCall} (h : Ready bytes log) :
    ∀ x ∈ log, x.isReplace = false := by
  obtain ⟨ws, hws, rfl⟩ := h
  intro x hx
  rcases List.mem_append.1 hx with hx | hx
  · exact hws.noReplace x hx
  · rw [List.mem_singleton.1 hx]
    rfl

/-- The beginning is in order. -/
theorem begin_ok (s : S) (bytes : Bytes) : (begin_ s bytes).Ok bytes := by
  unfold begin_
  split
  · exact .inl nofun
  · exact ⟨[], rfl, .nil⟩

/-- What one write leaves behind. A write that takes nothing, that takes more than it was given or
that fails ends the attempt, unless it was interrupted; otherwise what it took is written, and the
rest follows. -/
theorem afterWrite_ok {bytes rest sofar : Bytes} {s : S} {log : List FileCall}
    (hbytes : sofar ++ rest = bytes) (h : Wrote sofar log) (answer : Except IoError Nat) :
    Config.Ok bytes ⟨afterWrite rest answer, s, log ++ [.write rest answer]⟩ := by
  have hw := h.write rest answer
  have hfailed : Failed bytes (log ++ [.write rest answer]) := .inl hw.noReplace
  cases answer with
  | ok n =>
    cases n with
    | zero => exact hfailed
    | succ n =>
      unfold afterWrite
      simp only
      split
      · refine ⟨sofar ++ rest.take (n + 1), ?_, hw⟩
        rw [List.append_assoc, List.take_append_drop, hbytes]
      · exact hfailed
  | error e =>
    unfold afterWrite
    simp only
    split
    · refine ⟨sofar, hbytes, ?_⟩
      have hnone : sofar ++ (FileCall.write rest (.error e)).accepted = sofar := List.append_nil _
      rwa [hnone] at hw
    · exact hfailed

/-- One step keeps the log as it should be. One case for each phase, which says what the log holds
so far; a call that fails ends the log before or after the replacement, and nothing follows it but
the clean-up. -/
theorem step_ok (ops : AtomicFileOps S) {bytes : Bytes} {c : Config S} (h : c.Ok bytes) :
    (step ops c).Ok bytes := by
  obtain ⟨phase, s, log⟩ := c
  cases phase with
  | writing rest =>
    obtain ⟨sofar, hbytes, hw⟩ := h
    simp only [step]
    split
    · next hrest =>
      rw [hrest, List.append_nil] at hbytes
      exact hbytes ▸ hw
    · exact afterWrite_ok hbytes hw _
  | written =>
    have hw : Wrote bytes log := h
    simp only [step]
    cases (ops.syncFile s).1 with
    | ok u => exact ⟨log, hw, rfl⟩
    | error e =>
      refine .inl fun x hx => ?_
      rcases List.mem_append.1 hx with hx | hx
      · exact hw.noReplace x hx
      · rw [List.mem_singleton.1 hx]
        rfl
  | synced =>
    simp only [step]
    cases (ops.replace s).1 with
    | ok u => exact ⟨log, h, rfl⟩
    | error e => exact .inr ⟨log, .error e, [], h, rfl, .inl ⟨rfl, e, rfl⟩⟩
  | replaced =>
    obtain ⟨pre, hpre, hlog⟩ := h
    have hlog : log = pre ++ [.replace (.ok ())] := hlog
    simp only [step, hlog, List.append_assoc, List.cons_append, List.nil_append]
    cases (ops.syncParent s).1 with
    | ok u => exact ⟨pre, hpre, rfl⟩
    | error e => exact .inr ⟨pre, .ok (), _, hpre, rfl, .inr ⟨e, rfl⟩⟩
  | returned result => exact h

/-- Every step leaves the run in order. -/
theorem after_ok (ops : AtomicFileOps S) (s : S) (bytes : Bytes) (n : Nat) :
    (after ops s bytes n).Ok bytes := by
  induction n with
  | zero => exact begin_ok s bytes
  | succ n ih =>
    rw [after_succ]
    exact step_ok ops ih

/-- A call that is the only one of its kind in a log is found at one place. By induction on the
calls before it: none of them is of the kind, so none of them is the call that was found. -/
theorem unique_replace {pre tail before rest : List FileCall} {a answer : Except IoError Unit}
    (hpre : ∀ x ∈ pre, x.isReplace = false) (htail : ∀ x ∈ tail, x.isReplace = false)
    (h : pre ++ .replace a :: tail = before ++ .replace answer :: rest) :
    pre = before ∧ a = answer ∧ tail = rest := by
  induction pre generalizing before with
  | nil =>
    cases before with
    | nil =>
      obtain ⟨ha, rfl⟩ := List.cons.inj h
      exact ⟨rfl, FileCall.replace.inj ha, rfl⟩
    | cons x before =>
      obtain ⟨-, rfl⟩ := List.cons.inj h
      exact nomatch htail (.replace answer) (by simp)
  | cons y pre ih =>
    cases before with
    | nil =>
      obtain ⟨rfl, -⟩ := List.cons.inj h
      exact nomatch hpre _ List.mem_cons_self
    | cons x before =>
      obtain ⟨rfl, hrest⟩ := List.cons.inj h
      obtain ⟨rfl, ha, ht⟩ := ih (fun z hz => hpre z (List.mem_cons_of_mem _ hz)) hrest
      exact ⟨rfl, ha, ht⟩

/-- At any point, a file that was replaced was complete and synced before, and nothing replaces it
again. -/
theorem Config.Ok.replace {bytes : Bytes} {c : Config S} (h : c.Ok bytes)
    {before rest : List FileCall} {answer : Except IoError Unit}
    (hlog : c.log = before ++ .replace answer :: rest) :
    Ready bytes before ∧ ∀ x ∈ rest, x.isReplace = false := by
  -- a log in which nothing is replaced does not have the call
  have hnone (hno : ∀ x ∈ c.log, x.isReplace = false) : False := by
    rw [hlog] at hno
    exact nomatch hno (.replace answer) (by simp)
  -- a log in which the call is the first of its kind
  have hone {pre tail : List FileCall} {a : Except IoError Unit} (hpre : Ready bytes pre)
      (htail : ∀ x ∈ tail, x.isReplace = false) (heq : c.log = pre ++ .replace a :: tail) :
      Ready bytes before ∧ ∀ x ∈ rest, x.isReplace = false := by
    obtain ⟨rfl, -, rfl⟩ := unique_replace hpre.noReplace htail (heq.symm.trans hlog)
    exact ⟨hpre, htail⟩
  obtain ⟨phase, s, log⟩ := c
  cases phase with
  | writing left =>
    obtain ⟨sofar, -, hw⟩ := h
    exact (hnone hw.noReplace).elim
  | written => exact (hnone (Wrote.noReplace h)).elim
  | synced => exact (hnone (Ready.noReplace h)).elim
  | replaced =>
    obtain ⟨pre, hpre, heq⟩ := h
    exact hone hpre (fun x hx => absurd hx List.not_mem_nil) heq
  | returned result =>
    cases result with
    | ok u =>
      obtain ⟨pre, hpre, heq⟩ := h
      refine hone hpre (fun x hx => ?_) heq
      rw [List.mem_singleton.1 hx]
      rfl
    | error e =>
      rcases h with hno | ⟨pre, a, tail, hpre, heq, htail⟩
      · exact (hnone hno).elim
      · refine hone hpre (fun x hx => ?_) heq
        rcases htail with ⟨rfl, -⟩ | ⟨e', rfl⟩
        · exact nomatch hx
        · rw [List.mem_singleton.1 hx]
          rfl

/-! ## The end of the loop -/

/-- How many calls are left at most, if no write is interrupted. -/
def Phase.rank : Phase → Nat
  | .writing rest => rest.length + 4
  | .written => 3
  | .synced => 2
  | .replaced => 1
  | .returned _ => 0

/-- The number of writes that were interrupted. -/
def interruptions (log : List FileCall) : Nat := log.countP FileCall.isInterrupted

/-- A call that fails ends the run, which is no step back. -/
theorem rank_orReturn (next : Phase) (answer : Except IoError Unit) :
    (orReturn next answer).rank ≤ next.rank := by
  cases answer with
  | ok u => exact Nat.le_refl _
  | error e => exact Nat.zero_le _

/-- A step comes closer to the end, or a write is interrupted. A write that takes some octets
shortens the rest, and every other phase leads to a later one; only an interrupted write leaves the
rank as it was. -/
theorem step_rank (ops : AtomicFileOps S) {c : Config S} (h : c.phase.rank ≠ 0) :
    (step ops c).phase.rank + interruptions c.log + 1 ≤ c.phase.rank +
    interruptions (step ops c).log := by
  obtain ⟨phase, s, log⟩ := c
  have hgrow (x : FileCall) : interruptions log ≤ interruptions (log ++ [x]) := by
    rw [interruptions, interruptions, List.countP_append]
    exact Nat.le_add_right _ _
  cases phase with
  | writing rest =>
    simp only [step]
    split
    · next hrest =>
      subst hrest
      show 3 + interruptions log + 1 ≤ 4 + interruptions log
      omega
    · next hrest =>
      have hpos : 0 < rest.length := List.length_pos_iff.2 hrest
      have hle := hgrow (.write rest (ops.write s rest).1)
      cases hanswer : (ops.write s rest).1 with
      | ok n =>
        rw [hanswer] at hle
        cases n with
        | zero =>
          simp only [afterWrite, Phase.rank]
          omega
        | succ n =>
          simp only [afterWrite]
          split
          · simp only [Phase.rank, List.length_drop]
            omega
          · simp only [Phase.rank]
            omega
      | error e =>
        rw [hanswer] at hle
        simp only [afterWrite]
        split
        · next hkind =>
          have hmore : interruptions (log ++ [.write rest (.error e)]) = interruptions log + 1 := by
            rw [interruptions, interruptions, List.countP_append]
            simp [FileCall.isInterrupted, hkind]
          rw [hmore]
          simp only [Phase.rank]
          omega
        · simp only [Phase.rank]
          omega
  | written =>
    have hle := hgrow (.syncFile (ops.syncFile s).1)
    have hrank : (orReturn .synced (ops.syncFile s).1).rank ≤ 2 := rank_orReturn .synced _
    show (orReturn .synced (ops.syncFile s).1).rank + interruptions log + 1 ≤
      3 + interruptions (log ++ [.syncFile (ops.syncFile s).1])
    omega
  | synced =>
    have hle := hgrow (.replace (ops.replace s).1)
    have hrank : (orReturn .replaced (ops.replace s).1).rank ≤ 1 := rank_orReturn .replaced _
    show (orReturn .replaced (ops.replace s).1).rank + interruptions log + 1 ≤
      2 + interruptions (log ++ [.replace (ops.replace s).1])
    omega
  | replaced =>
    have hle := hgrow (.syncParent (ops.syncParent s).1)
    show 0 + interruptions log + 1 ≤ 1 + interruptions (log ++ [.syncParent (ops.syncParent s).1])
    omega
  | returned result => exact absurd rfl h

/-- A run that has ended stays as it is. -/
theorem step_returned (ops : AtomicFileOps S) {c : Config S} (h : c.phase.rank = 0) :
    step ops c = c := by
  obtain ⟨phase, s, log⟩ := c
  cases phase with
  | returned result => rfl
  | _ => simp [Phase.rank] at h

/-- As long as the function goes on, it has made no more calls than there are octets and
interruptions. -/
theorem after_rank (ops : AtomicFileOps S) (s : S) (bytes : Bytes) (n : Nat) :
    (after ops s bytes n).phase.rank = 0 ∨
      n + (after ops s bytes n).phase.rank ≤
        (begin_ s bytes).phase.rank + interruptions (after ops s bytes n).log := by
  induction n with
  | zero => exact .inr (by simp [after])
  | succ n ih =>
    rw [after_succ]
    rcases ih with h | h
    · exact .inl (by rw [step_returned ops h, h])
    · by_cases hdone : (after ops s bytes n).phase.rank = 0
      · exact .inl (by rw [step_returned ops hdone, hdone])
      · have := step_rank ops hdone
        exact .inr (by omega)

/-- A function that has returned made its last call some time ago. -/
theorem after_returned (ops : AtomicFileOps S) (s : S) (bytes : Bytes) {n : Nat}
    (h : (after ops s bytes n).phase.rank = 0) (m : Nat) :
    after ops s bytes (n + m) = after ops s bytes n := by
  induction m with
  | zero => rfl
  | succ m ih => rw [← Nat.add_assoc, after_succ, ih, step_returned ops h]

/-- The log only grows. -/
theorem step_log (ops : AtomicFileOps S) (c : Config S) : ∃ xs, (step ops c).log = c.log ++ xs := by
  obtain ⟨phase, s, log⟩ := c
  cases phase with
  | writing rest =>
    simp only [step]
    split
    · exact ⟨[], (List.append_nil _).symm⟩
    · exact ⟨_, rfl⟩
  | returned result => exact ⟨[], (List.append_nil _).symm⟩
  | _ => exact ⟨_, rfl⟩

/-- Interruptions are counted and never forgotten. -/
theorem interruptions_mono (ops : AtomicFileOps S) (s : S) (bytes : Bytes) :
    Monotone fun n => interruptions (after ops s bytes n).log := by
  refine monotone_nat_of_le_succ fun n => ?_
  obtain ⟨xs, hxs⟩ := step_log ops (after ops s bytes n)
  rw [after_succ, hxs, interruptions, interruptions, List.countP_append]
  exact Nat.le_add_right _ _

/-- A run has ended if there is nothing left to do. -/
theorem rank_eq_zero {phase : Phase} : phase.rank = 0 ↔ ∃ result, phase = .returned result := by
  cases phase with
  | returned result => exact ⟨fun _ => ⟨result, rfl⟩, fun _ => rfl⟩
  | _ => simp [Phase.rank]

/-- Whatever the operations answer: the new file becomes visible only when all its octets were
written and synced, and at most once; success is returned exactly when that and the last sync have
succeeded; and the function returns unless writes are interrupted again and again. -/
theorem atomicReplace_complete (ops : AtomicFileOps S) (s : S) (bytes : Bytes) :
    (∀ n before answer rest, (after ops s bytes n).log = before ++ .replace answer :: rest →
      Ready bytes before ∧ ∀ x ∈ rest, x.isReplace = false) ∧
    (∀ n result, (after ops s bytes n).phase = .returned result → (result = .ok () ↔
      ∃ pre, Ready bytes pre ∧
        (after ops s bytes n).log = pre ++ [.replace (.ok ()), .syncParent (.ok ())])) ∧
    ((∃ n result, (after ops s bytes n).phase = .returned result) ↔
      ∃ m, ∀ n, interruptions (after ops s bytes n).log ≤ m) := by
  refine ⟨fun n before answer rest hlog => (after_ok ops s bytes n).replace hlog,
    fun n result hphase => ?_, ?_, ?_⟩
  · have h := after_ok ops s bytes n
    unfold Config.Ok at h
    rw [hphase] at h
    cases result with
    | ok u => exact ⟨fun _ => h, fun _ => rfl⟩
    | error e =>
      refine ⟨nofun, fun ⟨pre, hpre, hlog⟩ => ?_⟩
      rcases h with hno | ⟨pre', a, tail, hpre', hlog', htail⟩
      · rw [hlog] at hno
        exact nomatch hno (.replace (.ok ())) (by simp)
      · have htail' : ∀ x ∈ [FileCall.syncParent (.ok ())], x.isReplace = false := by
          intro x hx
          rw [List.mem_singleton.1 hx]
          rfl
        obtain ⟨-, rfl, rfl⟩ := unique_replace hpre.noReplace htail' (hlog.symm.trans hlog')
        rcases htail with ⟨hnil, -⟩ | ⟨e', he⟩
        · exact nomatch hnil
        · exact nomatch he
  · rintro ⟨n, result, hphase⟩
    have hdone := rank_eq_zero.2 ⟨result, hphase⟩
    refine ⟨interruptions (after ops s bytes n).log, fun k => ?_⟩
    rcases Nat.le_total k n with hk | hk
    · exact interruptions_mono ops s bytes hk
    · obtain ⟨m, rfl⟩ := Nat.exists_eq_add_of_le hk
      rw [after_returned ops s bytes hdone]
  · rintro ⟨m, hm⟩
    have hlast := after_rank ops s bytes ((begin_ s bytes).phase.rank + m + 1)
    have hbound := hm ((begin_ s bytes).phase.rank + m + 1)
    rcases hlast with h | h
    · exact ⟨_, rank_eq_zero.1 h⟩
    · omega

end Replace

end SnacMachine.Persist
