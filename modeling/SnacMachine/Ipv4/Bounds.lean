import SnacMachine.Ipv4.Moves
import SnacMachine.Lib.Run

/-!
# The bounds of the IPv4 host

The host in use (`machine`): whatever it is asked for and whenever, no call panics, it has at most
256 neighbors, at most 64 packets and 256 KiB wait for them (four packets for each of them, and none
for a neighbor that is known), at most 64 packets and 256 KiB are received and not taken, and no
neighbor is asked for more than three times (`host_bounded`).
-/

namespace SnacMachine.Ipv4

open Ip Nat64

/-! ## The machine -/

/-- What is done with a host. -/
inductive Op
  | configure (address : Ipv4Addr) (length : Nat) (gateway : Option Ipv4Addr)
  | unavailable
  | setRoutes (routes : List Route)
  | takePacket
  | send (packet : Bytes)
  | receive (frame : Bytes)
  | poll

/-- What a call returns: a panic, a failure, frames to transmit or a packet. -/
inductive Answer
  | panicked
  | failed (e : IoError)
  | frames (out : List Bytes)
  | packet (received : Option Bytes)

/-- The frames that a call transmits. -/
def Answer.out : Answer → List Bytes
  | .frames out => out
  | _ => []

/-- A call that returns nothing, or fails. -/
def Answer.unit : Except IoError Unit → Answer
  | .ok _ => .frames []
  | .error e => .failed e

/-- A call that returns frames, fails or panics. -/
def settle (h : Ipv4) : Option (Except IoError (List Bytes) × Ipv4) → Ipv4 × Answer
  | none => (h, .panicked)
  | some (.error e, h) => (h, .failed e)
  | some (.ok out, h) => (h, .frames out)

/-- A host after a call, and what the call returns. -/
def perform (h : Ipv4) (now : Nat) : Op → Ipv4 × Answer
  | .configure address length gateway =>
    let (r, h) := h.configure address length gateway
    (h, .unit r)
  | .unavailable => (h.unavailable, .frames [])
  | .setRoutes routes =>
    let (r, h) := h.setRoutes routes
    (h, .unit r)
  | .takePacket =>
    let (p, h) := h.takePacket
    (h, .packet p)
  | .send packet => h.settle (h.send packet now)
  | .receive frame =>
    let (out, h) := h.receive frame now
    (h, .frames out)
  | .poll => h.settle ((h.poll now).map fun r => (.ok r.1, r.2))

/-- A host in use: calls and their moments. -/
def machine : Machine Ipv4 (Op × Nat) Answer where
  step h o := h.perform o.2 o.1
  time o := o.2
  legal _ _ := True

/-- The packet that a call takes. -/
def accepted : Op → Answer → Option Bytes
  | .send packet, .frames _ => (Packet.parse packet).toOption.map Packet.bytes
  | _, _ => none

/-- The messages that a call hears. -/
def hears (o : Op) (a : Arp) : Prop := ∃ frame, o = .receive frame ∧ Arp.parse frame = .ok a

variable {heard : Arp → Prop} {h h' : Ipv4} {now : Nat} {ls : List Label}

/-- What a call does: it sets the host up, or it is a sequence of moves. One case for each
operation, with the lemma about the function that it calls; no operation panics. -/
theorem perform_spec (hs : Setup h) (o : Op) (now : Nat) :
    (h.perform now o).2 ≠ .panicked ∧
      (Reset h (h.perform now o).1 ∧ (h.perform now o).2.out = [] ∧
       accepted o (h.perform now o).2 = none ∨
        Did now (hears o) h (accepted o (h.perform now o).2).toList (h.perform now o).2.out
          (h.perform now o).1) := by
  have hunit : ∀ r : Except IoError Unit, Answer.unit r ≠ .panicked ∧ (Answer.unit r).out = [] := by
    intro r
    cases r with
    | error e => exact ⟨Answer.noConfusion, rfl⟩
    | ok u => exact ⟨Answer.noConfusion, rfl⟩
  cases o with
  | configure address length gateway =>
    obtain ⟨hfine, hout⟩ := hunit (h.configure address length gateway).1
    refine ⟨hfine, ?_⟩
    rcases h.configure_reset address length gateway with hsame | hreset
    · right
      show Did now (hears _) h [] (Answer.unit (h.configure address length gateway).1).out
        (h.configure address length gateway).2
      rw [hout, hsame]
      exact .nil h
    · exact .inl ⟨hreset, hout, rfl⟩
  | unavailable => exact ⟨Answer.noConfusion, .inl ⟨unavailable_reset h, rfl, rfl⟩⟩
  | setRoutes routes =>
    obtain ⟨hfine, hout⟩ := hunit (h.setRoutes routes).1
    refine ⟨hfine, ?_⟩
    rcases setRoutes_reset hs routes with hsame | hreset
    · right
      show Did now (hears _) h [] (Answer.unit (h.setRoutes routes).1).out (h.setRoutes routes).2
      rw [hout, hsame]
      exact .nil h
    · exact .inl ⟨hreset, hout, rfl⟩
  | takePacket => exact ⟨Answer.noConfusion, .inr h.takePacket_did⟩
  | send packet =>
    obtain ⟨r, h', hcall, hdid⟩ := send_did (hears (.send packet)) hs packet now
    have hperform : h.perform now (.send packet) = h.settle (some (r, h')) :=
      congrArg h.settle hcall
    rw [hperform]
    rcases hdid with ⟨e, rfl, hdid⟩ | ⟨p, out, hparse, rfl, hdid⟩
    · exact ⟨Answer.noConfusion, .inr hdid⟩
    · refine ⟨Answer.noConfusion, .inr ?_⟩
      have haccepted : accepted (.send packet) (.frames out) = some p.bytes := by
        show (Packet.parse packet).toOption.map Packet.bytes = some p.bytes
        rw [hparse]
        rfl
      show Did now (hears _) h (accepted (.send packet) (.frames out)).toList out h'
      rw [haccepted]
      exact hdid
  | receive frame =>
    exact ⟨Answer.noConfusion, .inr (receive_did hs frame fun _ ha => ⟨frame, rfl, ha⟩)⟩
  | poll =>
    obtain ⟨out, h', hcall, hdid⟩ := poll_did hs now
    have hperform : h.perform now .poll = h.settle (some (.ok out, h')) :=
      congrArg (fun r => h.settle (Option.map _ r)) hcall
    rw [hperform]
    exact ⟨Answer.noConfusion, .inr hdid⟩

/-! ## The bounds -/

/-- What holds of a neighbor. -/
structure Neighbor.Bounded (n : Neighbor) : Prop where
  queue : n.queue.length ≤ 4
  attempts : n.attempts ≤ 3
  known : n.mac ≠ none → n.queue = []

/-- What holds of a host. -/
structure Bounded (h : Ipv4) : Prop where
  setup : Setup h
  neighbors : h.neighbors.size ≤ 256
  packets : h.queuedPackets ≤ 64
  octets : h.queuedBytes ≤ 256 * 1024
  input : h.input.length ≤ 64
  inputOctets : (h.input.map List.length).sum ≤ 256 * 1024
  arps : h.arpSent ≤ 32
  each : ∀ ip n, h.neighbors.get ip = some n → n.Bounded

/-- A new host is set up, with nothing to be set up yet. -/
theorem Setup.new (mac : Mac) : Setup (new mac) :=
  ⟨fun _ h => absurd h (Option.some_ne_none _).symm, fun _ h =>
   absurd h (Option.some_ne_none _).symm,
    Nat.zero_le 64, fun _ h => absurd h List.not_mem_nil, fun _ => rfl,
    fun _ _ h => absurd h (Option.some_ne_none _).symm⟩

/-- A new host is within all limits. -/
theorem Bounded.new (mac : Mac) : Bounded (new mac) :=
  ⟨.new mac, Nat.zero_le _, Nat.zero_le _, Nat.zero_le _, Nat.zero_le _, Nat.zero_le _,
   Nat.zero_le _,
    fun _ _ h => absurd h (Option.some_ne_none _).symm⟩

/-- Setting up a host anew forgets what was limited: no neighbors and no packets are left, and the
window and what was received stay within their limits. -/
theorem Bounded.reset (b : Bounded h) (r : Reset h h') : Bounded h' := by
  refine ⟨r.setup, ?_, ?_, ?_, ?_, ?_, ?_, ?_⟩
  · rw [r.empty]
    exact Nat.zero_le 256
  · unfold queuedPackets
    rw [r.empty]
    exact Nat.zero_le 64
  · unfold queuedBytes
    rw [r.empty]
    exact Nat.zero_le _
  · rcases r.input with hinput | hinput
    · rw [hinput]
      exact Nat.zero_le 64
    · rw [hinput]
      exact b.input
  · rcases r.input with hinput | hinput
    · rw [hinput]
      exact Nat.zero_le _
    · rw [hinput]
      exact b.inputOctets
  · rw [r.window.2]
    exact b.arps
  · intro ip n hn
    rw [r.empty] at hn
    cases hn

/-- Without its first packet a queue holds no more octets. -/
theorem sum_tail_le (l : List Bytes) : (l.tail.map List.length).sum ≤ (l.map List.length).sum := by
  cases l with
  | nil => exact Nat.le_refl _
  | cons b l =>
    rw [List.map_cons, List.sum_cons]
    exact Nat.le_add_left _ _

/-- The neighbors after one of them changes. -/
theorem each_insert (b : Bounded h) {next : Ipv4Addr} {n : Neighbor} (hn : n.Bounded) :
    ∀ ip n', (h.neighbors.insert next n).get ip = some n' → n'.Bounded := by
  intro ip n' hn'
  rw [OrdMap.get_insert_eq] at hn'
  split at hn'
  · cases hn'
    exact hn
  · exact b.each ip n' hn'

/-- A neighbor is put into the table where there is room, or where it was already. -/
theorem size_insert_room {next : Ipv4Addr} {n : Neighbor} (hsize : h.neighbors.size ≤ 256)
    (entries : h.neighbors.contains next = true ∨ h.neighbors.size < 256) :
    (h.neighbors.insert next n).size ≤ 256 := by
  rcases entries with hold | hroom
  · rw [OrdMap.size_insert_of_contains n hold]
    exact hsize
  · exact Nat.le_trans (OrdMap.size_insert_le _ _ _) hroom

/-- Replacing a queue counts the new one in place of the old one. A neighbor that was not there had
an empty queue, which counts nothing. -/
theorem total_insert_queue (h : Ipv4) (next : Ipv4Addr) (n : Neighbor) (w : List Bytes → Nat)
    (hw : w [] = 0) : (h.neighbors.insert next n).total (fun _ n => w n.queue) +
      w (((h.neighbors.get next).map Neighbor.queue).getD []) =
      h.neighbors.total (fun _ n => w n.queue) + w n.queue := by
  cases hget : h.neighbors.get next with
  | none =>
    rw [OrdMap.total_insert_of_none hget]
    simp only [Option.map_none, Option.getD_none, hw]
    omega
  | some n' =>
    have := OrdMap.total_insert_of_some (f := fun _ (n : Neighbor) => w n.queue) (v := n) hget
    simp only [Option.map_some, Option.getD_some]
    omega

/-- Every move keeps the limits. One case for each move: those that add a neighbor, a packet or a
message carry in their premises that there is room, and the others only take away. -/
theorem Bounded.move (b : Bounded h) (m : Move now heard h ls h') : Bounded h' := by
  have hsetup := b.setup.move m
  have hwindow : ∀ {p : Bool}, h.allowArp now = (p, h') → Bounded h' := by
    intro p hallow
    obtain ⟨p', w, hw, hle, -⟩ := allowArp_spec h now
    rw [hw] at hallow
    cases hallow
    exact ⟨hsetup, b.neighbors, b.packets, b.octets, b.input, b.inputOctets, hle b.arps, b.each⟩
  cases m with
  | input small =>
    rcases small with ⟨hcount, hoctets⟩ | rfl
    · exact ⟨hsetup, b.neighbors, b.packets, b.octets, hcount, hoctets, b.arps, b.each⟩
    · refine ⟨hsetup, b.neighbors, b.packets, b.octets, ?_, ?_, b.arps, b.each⟩
      · show h.input.tail.length ≤ 64
        rw [List.length_tail]
        exact Nat.le_trans (Nat.sub_le _ 1) b.input
      · exact Nat.le_trans (sum_tail_le h.input) b.inputOctets
  | forget p =>
    have hless :
        ∀ w : List Bytes → Nat, (h.neighbors.retain fun _ n => p n).total (fun _ n => w n.queue) ≤
        h.neighbors.total fun _ n => w n.queue := fun w => OrdMap.total_retain_le _ _ _
    refine ⟨hsetup, Nat.le_trans (OrdMap.size_retain_le _ _) b.neighbors,
      Nat.le_trans (hless List.length) b.packets,
      Nat.le_trans (hless fun q => (q.map List.length).sum) b.octets, b.input,
      b.inputOctets, b.arps, ?_⟩
    intro ip n hn
    rw [OrdMap.get_retain_values] at hn
    exact b.each ip n (Option.filter_eq_some_iff.1 hn).1
  | known hop get known live => exact b
  | @wait next n bytes hop get unknown entries packets octets each =>
    have hqueue : ((h.neighbors.get next).map Neighbor.queue).getD [] = n.queue := by
      rw [← get]
      cases h.neighbors.get next with
      | none => rfl
      | some n => rfl
    have hattempts : n.attempts ≤ 3 := by
      cases hget : h.neighbors.get next with
      | none =>
        rw [← get, hget]
        exact Nat.zero_le 3
      | some n' =>
        rw [← get, hget]
        exact (b.each next n' hget).attempts
    refine ⟨hsetup, size_insert_room b.neighbors entries, ?_, ?_, b.input, b.inputOctets, b.arps,
      each_insert b ⟨?_, hattempts, fun hknown => absurd unknown hknown⟩⟩
    · have := total_insert_queue h next { n with queue := n.queue ++ [bytes] } List.length rfl
      rw [hqueue] at this
      simp only [List.length_append, List.length_singleton] at this
      show (h.neighbors.insert next { n with queue := n.queue ++ [bytes] }).total
        (fun _ n => n.queue.length) ≤ 64
      unfold queuedPackets at packets
      omega
    · have := total_insert_queue h next { n with queue := n.queue ++ [bytes] }
        (fun q => (q.map List.length).sum) rfl
      rw [hqueue] at this
      simp only [List.map_append, List.sum_append, List.map_singleton, List.sum_singleton] at this
      show (h.neighbors.insert next { n with queue := n.queue ++ [bytes] }).total
        (fun _ n => (n.queue.map List.length).sum) ≤ 256 * 1024
      unfold queuedBytes at octets
      omega
    · rw [List.length_append]
      exact each
  | @learn a queue hears online sender entries get =>
    refine ⟨hsetup, size_insert_room b.neighbors entries, ?_, ?_, b.input, b.inputOctets, b.arps,
      each_insert b ⟨Nat.zero_le 4, Nat.zero_le 3, fun _ => rfl⟩⟩
    · have := total_insert_queue h a.sender ⟨some a.senderMac, satAdd now 60000,
      0, []⟩ List.length rfl
      have hle := b.packets
      simp only [List.length_nil] at this
      show (h.neighbors.insert a.sender ⟨some a.senderMac, satAdd now 60000, 0, []⟩).total
        (fun _ n => n.queue.length) ≤ 64
      unfold queuedPackets at hle
      omega
    · have := total_insert_queue h a.sender ⟨some a.senderMac, satAdd now 60000, 0, []⟩
        (fun q => (q.map List.length).sum) rfl
      have hle := b.octets
      simp only [List.map_nil, List.sum_nil] at this
      show (h.neighbors.insert a.sender ⟨some a.senderMac, satAdd now 60000, 0, []⟩).total
        (fun _ n => (n.queue.map List.length).sum) ≤ 256 * 1024
      unfold queuedBytes at hle
      omega
  | ask allowed _ _ _ => exact hwindow allowed
  | refuse refused => exact hwindow refused
  | @retime ip n attempts deadline get unknown few =>
    have hqueue : ((h.neighbors.get ip).map Neighbor.queue).getD [] = n.queue := by rw [get]; rfl
    have hcount : ∀ w : List Bytes → Nat, w [] = 0 →
        (h.neighbors.insert ip { n with attempts, deadline }).total (fun _ n => w n.queue) =
          h.neighbors.total fun _ n => w n.queue := by
      intro w hw
      have := total_insert_queue h ip { n with attempts, deadline } w hw
      rw [hqueue] at this
      exact Nat.add_right_cancel this
    refine ⟨hsetup, size_insert_room b.neighbors (.inl (OrdMap.contains_iff.2 ⟨n, get⟩)),
      ?_, ?_, b.input, b.inputOctets, b.arps,
      each_insert b ⟨(b.each ip n get).queue, few, fun hknown => absurd unknown hknown⟩⟩
    · exact Nat.le_trans (Nat.le_of_eq (hcount List.length rfl)) b.packets
    · exact Nat.le_trans (Nat.le_of_eq (hcount (fun q => (q.map List.length).sum) rfl)) b.octets

/-- A sequence of moves keeps the limits. -/
theorem Bounded.moves (b : Bounded h) (m : Moves now heard h ls h') : Bounded h' := by
  induction m with
  | nil h => exact b
  | cons move _ ih => exact ih (b.move move)

/-- Every operation keeps the limits. -/
theorem Bounded.perform (b : Bounded h) (o : Op) (now : Nat) : Bounded (h.perform now o).1 := by
  obtain ⟨-, ⟨hreset, -⟩ | ⟨ls, hmoves, -⟩⟩ := perform_spec b.setup o now
  · exact b.reset hreset
  · exact b.moves hmoves

variable {mac : Mac} {t₀ t : Nat} {es : List ((Op × Nat) × Answer)}

/-- In every run the host is within its limits. -/
theorem Run.bounded (run : machine.Run (new mac) t₀ es h t) : Bounded h :=
  run.invariant (I := fun h _ => Bounded h) (.new mac) fun _ _ o b _ _ => b.perform o.1 o.2

/-- The bounds of a host in every run; no call panics. All parts are read off from one invariant,
which every call keeps (`Run.bounded`). -/
theorem host_bounded (run : machine.Run (new mac) t₀ es h t) :
    (∀ e ∈ es, e.2 ≠ .panicked) ∧ h.neighbors.size ≤ 256 ∧ h.queuedPackets ≤ 64 ∧
      h.queuedBytes ≤ 256 * 1024 ∧ h.input.length ≤ 64 ∧
      (h.input.map List.length).sum ≤ 256 * 1024 ∧
      h.routes.length ≤ 64 ∧ ∀ ip n, h.neighbors.get ip = some n → unicast ip = true ∧
      n.Bounded := by
  have b := Run.bounded run
  refine ⟨?_, b.neighbors, b.packets, b.octets, b.input, b.inputOctets, b.setup.routes,
    fun ip n hn => ⟨b.setup.neighbors ip n hn, b.each ip n hn⟩⟩
  refine run.history (I := fun es _ _ => ∀ e ∈ es, e.2 ≠ .panicked) (fun _ he =>
    absurd he List.not_mem_nil) ?_
  intro es s t o run hes _ _ e he
  rcases List.mem_append.1 he with he | he
  · exact hes e he
  · rw [List.mem_singleton.1 he]
    exact (perform_spec (Run.bounded run).setup o.1 o.2).1

/-- The address of a host. -/
def hostMac : Mac := .new 2 0 0 0 0 1

/-- The address of its neighbor. -/
def neighborMac : Mac := .new 2 0 0 0 0 7

def hostIp : Ipv4Addr := .new 192 0 2 1

def neighborIp : Ipv4Addr := .new 192 0 2 7

/-- A packet from the host to its neighbor. -/
def greeting : Bytes :=
  [0x45, 0, 0, 20, 0, 0, 0, 0, 64, 17, 0xf6, 0xd0, 192, 0, 2, 1, 192, 0, 2, 7]

/-- The neighbor answers. -/
def answering : Bytes := Arp.encode ⟨2, neighborMac, neighborIp, hostMac, hostIp⟩ hostMac

/-- The neighbor asks. -/
def question : Bytes := Arp.encode ⟨1, neighborMac, neighborIp, .zero, hostIp⟩ .broadcast

/-- The host asks for its neighbor, and sends its packet when the neighbor answers. The calls are
made one after the other and evaluated. -/
theorem greeted : ∃ es h, machine.Run (new hostMac) 0 es h 2 ∧
    (es.map fun e => (e.1.2, e.2.out)) = [(0, []),
      (1, [Arp.encode ⟨1, hostMac, hostIp, .zero, neighborIp⟩ .broadcast]),
      (2, [ethernet hostMac neighborMac greeting])] ∧
    (h.perform 3 (.send greeting)).2.out = [ethernet hostMac neighborMac greeting] ∧
    (h.perform 3 (.receive question)).2.out =
      [Arp.encode ⟨2, hostMac, hostIp, neighborMac, neighborIp⟩ neighborMac] := by
  have start : machine.Run (new hostMac) 0 [] (new hostMac) 0 := .nil
  have configured := start.snoc (.configure hostIp 24 none, 0) (Nat.le_refl 0) trivial
  have sent := configured.snoc (.send greeting, 1) (Nat.zero_le 1) trivial
  have received := sent.snoc (.receive answering, 2) (Nat.le_succ 1) trivial
  exact ⟨_, _, received, by decide +kernel, by decide +kernel, by decide +kernel⟩

/-- The theorem applied to a run in which a neighbor is asked for and answers; the host is within
its bounds after it. -/
theorem host_bounded_greeted : ∃ es h, machine.Run (new hostMac) 0 es h 2 ∧ es.length = 3 ∧
    (∀ e ∈ es, e.2 ≠ .panicked) ∧ h.neighbors.size ≤ 256 := by
  obtain ⟨es, h, run, hout, -⟩ := greeted
  have hlength : es.length = 3 := by
    rw [← List.length_map (f := fun e => (e.1.2, e.2.out)), hout]
    rfl
  obtain ⟨hfine, hsize, -⟩ := host_bounded run
  exact ⟨es, h, run, hlength, hfine, hsize⟩

end SnacMachine.Ipv4
