import SnacMachine.Ipv4.Bounds

/-!
# What the IPv4 host transmits

In every run of the host: the packets to a destination are transmitted in the order in which they
were taken, each of them at most once (`in_order`); a packet is transmitted to the Ethernet address
that its next hop gave in an ARP message that was received less than 60 seconds before (`resolved`);
every other frame is an ARP message of the host that asks all or answers a message (`arp_sound`),
and there are at most 64 of them in a second (`arp_rate`).
-/

namespace SnacMachine.Ipv4

open Ip Nat64

variable {heard : Arp → Prop} {h h' : Ipv4} {now : Nat} {ls ls' : List Label}

/-! ## Packets in order -/

/-- The packet that a frame carries. -/
def carried (frame : Bytes) : Option Bytes :=
  if (frame.drop 12).take 2 = [8, 0] then some (frame.drop 14) else none

/-- A frame of a packet carries the packet. -/
theorem carried_ethernet (own mac : Mac) (bytes : Bytes) :
    carried (ethernet own mac bytes) = some bytes := by
  obtain ⟨a, b, c, d, e, f, hown⟩ := Arp.exists_octets6 own
  obtain ⟨a', b', c', d', e', f', hmac⟩ := Arp.exists_octets6 mac
  unfold carried ethernet
  rw [hown, hmac]
  rfl

/-- An ARP message carries no packet. -/
theorem carried_arp (a : Arp) (destination : Mac) : carried (a.encode destination) = none := by
  obtain ⟨b, c, d, e, f, g, hown⟩ := Arp.exists_octets6 a.senderMac
  obtain ⟨b', c', d', e', f', g', hmac⟩ := Arp.exists_octets6 destination
  unfold carried Arp.encode
  rw [hown, hmac, if_neg]
  intro heq
  cases heq

/-- The packet that is transmitted. -/
def Label.payload : Label → Option Bytes
  | .sent _ _ bytes => some bytes
  | _ => none

/-- The packets that a sequence transmits. -/
def transmitted (ls : List Label) : List Bytes := ls.filterMap Label.payload

/-- What two sequences of moves transmit is transmitted one after the other. -/
theorem transmitted_append (ls ls' : List Label) :
    transmitted (ls ++ ls') = transmitted ls ++ transmitted ls' := List.filterMap_append

/-- Sending a queue transmits its packets. -/
theorem transmitted_sent (next : Ipv4Addr) (mac : Mac) (queue : List Bytes) :
    transmitted (queue.map (.sent next mac)) = queue := by
  induction queue with
  | nil => rfl
  | cons bytes queue ih => exact congrArg (bytes :: ·) ih

/-- The packets in the frames of a sequence are those that it transmits. By induction on the labels,
since ARP messages carry no packet. -/
theorem carried_frames (own : Mac) (ls : List Label) :
    (frames own ls).filterMap carried = transmitted ls := by
  induction ls with
  | nil => rfl
  | cons l ls ih =>
    rw [← List.singleton_append, frames_append, transmitted_append, List.filterMap_append, ih]
    congr 1
    cases l with
    | took next bytes => rfl
    | sent next mac bytes =>
      show [ethernet own mac bytes].filterMap carried = [bytes]
      rw [List.filterMap_cons, carried_ethernet]
      rfl
    | asked a destination =>
      show [a.encode destination].filterMap carried = []
      rw [List.filterMap_cons, carried_arp]
      rfl

/-- The packets of a list to a destination. -/
def toward (destination : Ipv4Addr) (l : List Bytes) : List Bytes :=
  l.filter fun bytes => goal bytes = destination

/-- The packets for a destination are picked out of two lists one after the other. -/
theorem toward_append (destination : Ipv4Addr) (l l' : List Bytes) :
    toward destination (l ++ l') = toward destination l ++ toward destination l' :=
  List.filter_append l l'

/-- The packets to a destination that wait for their next hop. -/
def waiting (h : Ipv4) (destination : Ipv4Addr) : List Bytes :=
  (((h.nextHop destination).bind h.neighbors.get).map fun n => toward destination n.queue).getD []

/-- Every packet waits for its next hop. -/
def Placed (h : Ipv4) : Prop :=
  ∀ ip n, h.neighbors.get ip = some n → ∀ bytes ∈ n.queue, h.nextHop (goal bytes) = some ip

/-- What waits for a destination waits with its next hop. -/
theorem waiting_of_get {destination next : Ipv4Addr} {n : Neighbor}
    (hop : h.nextHop destination = some next) (get : h.neighbors.get next = some n) :
    waiting h destination = toward destination n.queue := by
  unfold waiting
  rw [hop, Option.bind_some, get]
  rfl

/-- Nothing waits with a neighbor that is not in the table. -/
theorem waiting_of_none {destination next : Ipv4Addr} (hop : h.nextHop destination = some next)
    (get : h.neighbors.get next = none) : waiting h destination = [] := by
  unfold waiting
  rw [hop, Option.bind_some, get]
  rfl

/-- What waits does not change where neither the route nor the neighbor does. -/
theorem waiting_congr {destination : Ipv4Addr} (same : Same h h')
    (get : ∀ next, h.nextHop destination = some next →
     h'.neighbors.get next = h.neighbors.get next) :
    waiting h' destination = waiting h destination := by
  unfold waiting
  rw [same.nextHop]
  cases hop : h.nextHop destination with
  | none => rfl
  | some next => rw [Option.bind_some, Option.bind_some, get next hop]

/-- The host when one of its neighbors changes. -/
def withNeighbor (h : Ipv4) (next : Ipv4Addr) (n : Neighbor) : Ipv4 := { h with
  neighbors := h.neighbors.insert next n }

/-- Changing a neighbor changes no route. -/
theorem withNeighbor_same (h : Ipv4) (next : Ipv4Addr) (n : Neighbor) :
    Same h (h.withNeighbor next n) :=
  ⟨rfl, rfl, rfl, rfl⟩

/-- Changing a neighbor changes what waits for the destinations that are reached by it. The next hop
of each destination stays, since routes and addresses do. -/
theorem waiting_withNeighbor (h : Ipv4) (next : Ipv4Addr) (n : Neighbor) (destination : Ipv4Addr) :
    waiting (h.withNeighbor next n) destination =
      if h.nextHop destination = some next then toward destination n.queue
      else waiting h destination := by
  have same := h.withNeighbor_same next n
  split
  · next hop => exact waiting_of_get (same.nextHop destination ▸ hop) (OrdMap.get_insert_self _ _ _)
  · next hop =>
    refine waiting_congr same fun next' hop' => ?_
    have hne : next ≠ next' := fun heq => hop (heq ▸ hop')
    show (h.neighbors.insert next n).get next' = h.neighbors.get next'
    rw [OrdMap.get_insert_eq, if_neg hne]

/-- Packets stay where they belong if the queue of the changed neighbor belongs there. The queues of
the others are as before. -/
theorem Placed.withNeighbor (p : Placed h) {next : Ipv4Addr} {n : Neighbor}
    (hqueue : ∀ bytes ∈ n.queue, h.nextHop (goal bytes) = some next) : Placed
    (h.withNeighbor next n) := by
  intro ip n' get bytes hbytes
  rw [(h.withNeighbor_same next n).nextHop]
  have get : (h.neighbors.insert next n).get ip = some n' := get
  rw [OrdMap.get_insert_eq] at get
  split at get
  · next heq =>
    cases get
    rw [← heq]
    exact hqueue bytes hbytes
  · exact p ip n' get bytes hbytes

/-- What is in the queue of a neighbor is found with it. -/
theorem mem_getD_queue {next : Ipv4Addr} {bytes : Bytes}
    (hb : bytes ∈ ((h.neighbors.get next).map Neighbor.queue).getD []) :
    ∃ n, h.neighbors.get next = some n ∧ bytes ∈ n.queue := by
  cases hget : h.neighbors.get next with
  | none =>
    rw [hget] at hb
    cases hb
  | some n =>
    rw [hget] at hb
    exact ⟨n, rfl, hb⟩

/-- A neighbor that is not in the table has no queue. -/
theorem getD_queue (h : Ipv4) (next : Ipv4Addr) (deadline : Nat) :
    ((h.neighbors.get next).getD ⟨none, deadline, 0, []⟩).queue =
      ((h.neighbors.get next).map Neighbor.queue).getD [] := by
  cases h.neighbors.get next with
  | none => rfl
  | some n => rfl

/-- What waits for a destination is in the queue of its next hop. -/
theorem toward_queue {destination next : Ipv4Addr} (hop : h.nextHop destination = some next) :
    toward destination (((h.neighbors.get next).map Neighbor.queue).getD []) =
    waiting h destination := by
  cases hget : h.neighbors.get next with
  | none => exact (waiting_of_none hop hget).symm
  | some n => exact (waiting_of_get hop hget).symm

/-- Every move keeps the packets where they belong: a packet is put into the queue of its own next
hop, and otherwise queues are only shortened, emptied or dropped. -/
theorem Placed.move (p : Placed h) (m : Move now heard h ls h') : Placed h' := by
  cases m with
  | input _ => exact p
  | forget q =>
    intro ip n get
    rw [OrdMap.get_retain_values] at get
    exact p ip n (Option.filter_eq_some_iff.1 get).1
  | known hop get known live => exact p
  | wait hop get unknown entries packets octets each =>
    refine p.withNeighbor fun bytes' hbytes => ?_
    rcases List.mem_append.1 hbytes with hold | hnew
    · rw [← get, getD_queue] at hold
      obtain ⟨n', hn', hmem⟩ := mem_getD_queue hold
      exact p _ n' hn' bytes' hmem
    · rw [List.mem_singleton.1 hnew]
      exact hop
  | learn hears online sender entries get =>
    exact p.withNeighbor fun _ hbytes => absurd hbytes List.not_mem_nil
  | ask allowed _ _ _ =>
    obtain ⟨b, w, hw, -⟩ := allowArp_spec h now
    rw [hw] at allowed
    cases allowed
    exact p
  | refuse refused =>
    obtain ⟨b, w, hw, -⟩ := allowArp_spec h now
    rw [hw] at refused
    cases refused
    exact p
  | @retime ip n attempts deadline get unknown few =>
    have hqueue : ∀ bytes ∈ n.queue, h.nextHop (goal bytes) = some ip := p ip n get
    exact p.withNeighbor hqueue

/-- What a move transmits to a destination, and what waits then, waited before or is taken, in this
order. One case for each move; the queue of one next hop holds all packets to the destination, so
that their order is that of the queue. -/
theorem Placed.conserves (p : Placed h) (b : Bounded h) (m : Move now heard h ls h')
    (destination : Ipv4Addr) :
    List.Sublist (toward destination (transmitted ls) ++ waiting h' destination)
      (waiting h destination ++ toward destination (taken ls)) := by
  have hquiet : waiting h' destination = waiting h destination →
      List.Sublist (toward destination [] ++ waiting h' destination)
        (waiting h destination ++ toward destination []) := by
    intro heq
    rw [heq]
    show List.Sublist (waiting h destination) (waiting h destination ++ [])
    rw [List.append_nil]
  have hwindow :
      ∀ {b : Bool}, h.allowArp now = (b, h') → waiting h' destination = waiting h destination := by
    intro b hallow
    obtain ⟨b', w, hw, -⟩ := allowArp_spec h now
    rw [hw] at hallow
    cases hallow
    rfl
  cases m with
  | input _ => exact hquiet rfl
  | forget q =>
    refine List.Sublist.trans ?_ (List.sublist_append_left _ _)
    show List.Sublist (waiting _ destination) (waiting h destination)
    have hsame : Same h { h with
      neighbors := h.neighbors.retain fun _ n => q n } := ⟨rfl, rfl, rfl, rfl⟩
    cases hop : h.nextHop destination with
    | none =>
      unfold waiting
      rw [hsame.nextHop, hop]
      exact List.Sublist.refl _
    | some next =>
      cases hget : (h.neighbors.retain fun _ n => q n).get next with
      | none =>
        rw [waiting_of_none ((hsame.nextHop destination).trans hop) hget]
        exact List.nil_sublist _
      | some n =>
        rw [waiting_of_get ((hsame.nextHop destination).trans hop) hget]
        rw [OrdMap.get_retain_values] at hget
        rw [waiting_of_get hop (Option.filter_eq_some_iff.1 hget).1]
  | @known next n mac bytes hop get known live =>
    show List.Sublist (toward destination [bytes] ++ waiting h destination)
      (waiting h destination ++ toward destination [bytes])
    by_cases hgoal : goal bytes = destination
    · -- the neighbor is known, so nothing waits for it
      have hempty : waiting h destination = [] := by
        rw [waiting_of_get (hgoal ▸ hop) get,
          (b.each next n get).known (by rw [known]; exact Option.some_ne_none mac)]
        rfl
      rw [hempty, List.append_nil, List.nil_append]
    · have hnone : toward destination [bytes] = [] := by
        unfold toward
        rw [List.filter_singleton, decide_eq_false hgoal]
        rfl
      rw [hnone, List.append_nil, List.nil_append]
  | @wait next n bytes hop get unknown entries packets octets each =>
    show List.Sublist (waiting (h.withNeighbor next { n with queue := n.queue ++ [bytes] })
      destination)
      (waiting h destination ++ toward destination [bytes])
    rw [waiting_withNeighbor]
    split
    · next hop' =>
      rw [toward_append, ← get, getD_queue, toward_queue hop']
    · exact List.sublist_append_left _ _
  | @learn a queue hears online sender entries get =>
    rw [transmitted_sent, taken_sent]
    show List.Sublist (toward destination queue ++ waiting
      (h.withNeighbor a.sender ⟨some a.senderMac, satAdd now 60000, 0, []⟩) destination)
      (waiting h destination ++ [])
    rw [List.append_nil, waiting_withNeighbor]
    split
    · next hop =>
      show List.Sublist (toward destination queue ++ []) (waiting h destination)
      rw [List.append_nil, ← get, toward_queue hop]
    · next hop =>
      have hnone : toward destination queue = [] := by
        refine List.filter_eq_nil_iff.2 fun bytes hbytes hgoal => hop ?_
        rw [← get] at hbytes
        obtain ⟨n, hn, hmem⟩ := mem_getD_queue hbytes
        rw [← of_decide_eq_true hgoal]
        exact p _ n hn bytes hmem
      rw [hnone, List.nil_append]
  | ask allowed _ _ _ => exact hquiet (hwindow allowed)
  | refuse refused => exact hquiet (hwindow refused)
  | @retime ip n attempts deadline get unknown few =>
    refine hquiet ?_
    show waiting (h.withNeighbor ip { n with attempts, deadline }) destination =
      waiting h destination
    rw [waiting_withNeighbor]
    split
    · next hop => exact (waiting_of_get hop get).symm
    · rfl

/-- A sequence of moves keeps the packets where they belong, and neither adds nor reorders any for a
destination. -/
theorem Placed.moves (p : Placed h) (b : Bounded h) (m : Moves now heard h ls h')
    (destination : Ipv4Addr) : Placed h' ∧
      List.Sublist (toward destination (transmitted ls) ++ waiting h' destination)
        (waiting h destination ++ toward destination (taken ls)) := by
  induction m with
  | nil h =>
    refine ⟨p, ?_⟩
    show List.Sublist (waiting h destination) (waiting h destination ++ [])
    rw [List.append_nil]
  | @cons h h₁ h' ls ls' move rest ih =>
    obtain ⟨hplaced, hrest⟩ := ih (p.move move) (b.move move)
    refine ⟨hplaced, ?_⟩
    have hfirst := (p.conserves b move destination).append_right (toward destination (taken ls'))
    rw [transmitted_append, taken_append, toward_append, toward_append, List.append_assoc]
    rw [List.append_assoc, List.append_assoc] at hfirst
    exact (hrest.append_left _).trans hfirst

/-! ## Runs -/

variable {mac : Mac} {t₀ t : Nat} {es : List ((Op × Nat) × Answer)}

/-- The packets that a run transmits, in order. -/
def delivered (es : List ((Op × Nat) × Answer)) : List Bytes :=
  (es.flatMap fun e => e.2.out).filterMap carried

/-- The packets that a run takes, in order. -/
def admitted (es : List ((Op × Nat) × Answer)) : List Bytes :=
  es.filterMap fun e => accepted e.1.1 e.2

/-- What is delivered is extended by what the last answer delivers. -/
theorem delivered_snoc (es : List ((Op × Nat) × Answer)) (e : (Op × Nat) × Answer) :
    delivered (es ++ [e]) = delivered es ++ e.2.out.filterMap carried := by
  unfold delivered
  rw [List.flatMap_append, List.filterMap_append, List.flatMap_singleton]

/-- What is admitted is extended by what the last operation admits. -/
theorem admitted_snoc (es : List ((Op × Nat) × Answer)) (e : (Op × Nat) × Answer) :
    admitted (es ++ [e]) = admitted es ++ (accepted e.1.1 e.2).toList := by
  unfold admitted
  rw [List.filterMap_append]
  congr 1

/-- What a call transmits to a destination, and what waits then, waited before or is taken. A host
that is set up anew holds nothing; otherwise the call is a sequence of moves, each of which
conserves the packets. -/
theorem Placed.perform (p : Placed h) (b : Bounded h) (o : Op) (now : Nat) :
    Placed (h.perform now o).1 ∧ ∀ destination, List.Sublist
      (toward destination ((h.perform now o).2.out.filterMap carried) ++
        waiting (h.perform now o).1 destination)
      (waiting h destination ++ toward destination (accepted o (h.perform now o).2).toList) := by
  obtain ⟨-, ⟨hreset, hout, haccepted⟩ | ⟨ls, hmoves, hframes, htaken⟩⟩ :=
    perform_spec b.setup o now
  · refine ⟨fun ip n get => ?_, fun destination => ?_⟩
    · rw [hreset.empty] at get
      cases get
    · have hempty : waiting (h.perform now o).1 destination = [] := by
        cases hop : (h.perform now o).1.nextHop destination with
        | none =>
          unfold waiting
          rw [hop]
          rfl
        | some next =>
          refine waiting_of_none hop ?_
          rw [hreset.empty]
          rfl
      rw [hempty, hout]
      exact List.nil_sublist _
  · refine ⟨(p.moves b hmoves (goal [])).1, fun destination => ?_⟩
    rw [← hframes, ← htaken, carried_frames]
    exact (p.moves b hmoves destination).2

/-- In every run, the packets to a destination are transmitted in the order in which they were
taken, each of them at most once; what is not transmitted yet comes after what is, and waits for its
next hop. -/
theorem in_order (run : machine.Run (new mac) t₀ es h t) :
    Placed h ∧ ∀ destination, List.Sublist
      (toward destination (delivered es) ++ waiting h destination)
      (toward destination (admitted es)) := by
  refine run.history (I := fun es h _ => Placed h ∧ ∀ destination, List.Sublist
    (toward destination (delivered es) ++ waiting h destination)
    (toward destination (admitted es))) ?_ ?_
  · exact ⟨fun _ _ get => absurd get (Option.some_ne_none _).symm, fun _ => List.Sublist.refl _⟩
  · rintro es h t ⟨o, now⟩ run ⟨hplaced, hes⟩ _ _
    obtain ⟨hplaced', hcall⟩ := hplaced.perform (Run.bounded run) o now
    refine ⟨hplaced', fun destination => ?_⟩
    rw [delivered_snoc, admitted_snoc, toward_append, toward_append, List.append_assoc]
    have hbefore := (hes destination).append_right
      (toward destination (accepted o (h.perform now o).2).toList)
    rw [List.append_assoc] at hbefore
    exact ((hcall destination).append_left _).trans hbefore

/-- The theorem applied to a run in which a packet waits for its neighbor and is then sent. -/
theorem in_order_greeted : ∃ es h, machine.Run (new hostMac) 0 es h 2 ∧ delivered es = [greeting] ∧
    List.Sublist (toward neighborIp (delivered es) ++ waiting h neighborIp)
      (toward neighborIp (admitted es)) := by
  obtain ⟨es, h, run, hout, -⟩ := greeted
  refine ⟨es, h, run, ?_, (in_order run).2 neighborIp⟩
  have hall :
      es.flatMap (fun e => e.2.out) = (es.map fun e => (e.1.2, e.2.out)).flatMap Prod.snd := by
    rw [List.flatMap_map]
  unfold delivered
  rw [hall, hout]
  decide +kernel

/-! ## The addresses of neighbors -/

/-- An Ethernet address that was given for a neighbor at most 60 seconds before a moment. -/
def Given (ops : List (Op × Nat)) (ip : Ipv4Addr) (mac : Mac) (deadline : Nat) : Prop :=
  ∃ frame t' a, (Op.receive frame, t') ∈ ops ∧ Arp.parse frame = .ok a ∧ a.sender = ip ∧
    a.senderMac = mac ∧ deadline ≤ t' + 60000

/-- Every neighbor that is known was given its Ethernet address. -/
def Informed (ops : List (Op × Nat)) (h : Ipv4) : Prop :=
  ∀ ip n mac, h.neighbors.get ip = some n → n.mac = some mac → Given ops ip mac n.deadline

variable {ops : List (Op × Nat)} {o : Op}

/-- What the table knows about a neighbor was given if it is for the changed one. The entries of the
others are as before. -/
theorem Informed.withNeighbor (i : Informed ops h) {next : Ipv4Addr} {n : Neighbor}
    (hn : ∀ mac, n.mac = some mac → Given ops next mac n.deadline) : Informed ops
    (h.withNeighbor next n) := by
  intro ip n' mac get known
  have get : (h.neighbors.insert next n).get ip = some n' := get
  rw [OrdMap.get_insert_eq] at get
  split at get
  · next heq =>
    cases get
    rw [← heq]
    exact hn mac known
  · exact i ip n' mac get known

/-- A move keeps every neighbor informed, and a packet goes where its next hop is. A neighbor is
learned from a message that the call has heard, and packets are transmitted only to a neighbor whose
entry still lives. -/
theorem Informed.move (i : Informed ops h) (p : Placed h) (hmem : (o, now) ∈ ops)
    (m : Move now (hears o) h ls h') :
    Informed ops h' ∧ ∀ next mac bytes, .sent next mac bytes ∈ ls →
      h.nextHop (goal bytes) = some next ∧ ∃ deadline, now < deadline ∧
      Given ops next mac deadline := by
  have hnone : ∀ {P : Prop} {next : Ipv4Addr} {mac : Mac} {bytes : Bytes},
      Label.sent next mac bytes ∈ ([] : List Label) → P := fun h => absurd h List.not_mem_nil
  have hwindow : ∀ {b : Bool}, h.allowArp now = (b, h') → Informed ops h' := by
    intro b hallow
    obtain ⟨b', w, hw, -⟩ := allowArp_spec h now
    rw [hw] at hallow
    cases hallow
    exact i
  cases m with
  | input _ => exact ⟨i, fun _ _ _ => hnone⟩
  | forget q =>
    refine ⟨fun ip n mac get known => ?_, fun _ _ _ => hnone⟩
    rw [OrdMap.get_retain_values] at get
    exact i ip n mac (Option.filter_eq_some_iff.1 get).1 known
  | @known next n mac bytes hop get known live =>
    refine ⟨i, fun next' mac' bytes' hsent => ?_⟩
    rcases List.mem_cons.1 hsent with heq | hsent
    · cases heq
    · cases List.mem_singleton.1 hsent
      exact ⟨hop, n.deadline, live, i next n mac get known⟩
  | @wait next n bytes hop get unknown entries packets octets each =>
    refine ⟨?_, fun next' mac' bytes' hsent => ?_⟩
    · refine i.withNeighbor fun mac known => ?_
      rw [show n.mac = some mac from known] at unknown
      cases unknown
    · cases List.mem_singleton.1 hsent
  | @learn a queue hears online sender entries get =>
    obtain ⟨frame, rfl, hparse⟩ := hears
    refine ⟨?_, fun next' mac' bytes' hsent => ?_⟩
    · refine i.withNeighbor fun mac known => ?_
      cases known
      exact ⟨frame, now, a, hmem, hparse, rfl, rfl, satAdd_le now 60000⟩
    · obtain ⟨bytes, hbytes, heq⟩ := List.mem_map.1 hsent
      cases heq
      rw [← get] at hbytes
      obtain ⟨n, hn, hin⟩ := mem_getD_queue hbytes
      refine ⟨p _ n hn bytes' hin, now + 60000, Nat.lt_add_of_pos_right (Nat.zero_lt_succ _), ?_⟩
      exact ⟨frame, now, a, hmem, hparse, rfl, rfl, Nat.le_refl _⟩
  | ask allowed purpose sender sound =>
    refine ⟨hwindow allowed, fun next' mac' bytes' hsent => ?_⟩
    cases List.mem_singleton.1 hsent
  | refuse refused => exact ⟨hwindow refused, fun _ _ _ => hnone⟩
  | @retime ip n attempts deadline get unknown few =>
    refine ⟨i.withNeighbor fun mac known => ?_, fun _ _ _ => hnone⟩
    rw [show n.mac = some mac from known] at unknown
    cases unknown

/-- A sequence of moves keeps the table informed, and transmits where it is. By induction on the
moves, with `Informed.move` for the first of them. -/
theorem Informed.moves (i : Informed ops h) (p : Placed h) (hmem : (o, now) ∈ ops)
    (m : Moves now (hears o) h ls h') :
    Informed ops h' ∧ ∀ next mac bytes, .sent next mac bytes ∈ ls →
      h.nextHop (goal bytes) = some next ∧ ∃ deadline, now < deadline ∧
      Given ops next mac deadline := by
  induction m with
  | nil h => exact ⟨i, fun _ _ _ hsent => absurd hsent List.not_mem_nil⟩
  | cons move rest ih =>
    obtain ⟨hfirst, hsent⟩ := i.move p hmem move
    obtain ⟨hlast, hrest⟩ := ih hfirst (p.move move)
    refine ⟨hlast, fun next mac bytes hmem' => ?_⟩
    rcases List.mem_append.1 hmem' with hl | hl
    · exact hsent next mac bytes hl
    · rw [← move.same.nextHop]
      exact hrest next mac bytes hl

/-- What was given stays given as the run goes on. -/
theorem Given.mono {ops' : List (Op × Nat)} {ip : Ipv4Addr} {deadline : Nat} (hsub : ops ⊆ ops')
    (g : Given ops ip mac deadline) : Given ops' ip mac deadline := by
  obtain ⟨frame, t', a, hmem, hrest⟩ := g
  exact ⟨frame, t', a, hsub hmem, hrest⟩

/-- Every operation keeps the table informed. -/
theorem Informed.perform (i : Informed ops h) (p : Placed h) (b : Bounded h) (o : Op) (now : Nat) :
    Informed (ops ++ [(o, now)]) (h.perform now o).1 := by
  obtain ⟨-, ⟨hreset, -⟩ | ⟨ls, hmoves, -⟩⟩ := perform_spec b.setup o now
  · intro ip n mac get
    rw [hreset.empty] at get
    cases get
  · have i' : Informed (ops ++ [(o, now)]) h := fun ip n mac get known =>
      (i ip n mac get known).mono (List.subset_append_left _ _)
    exact (i'.moves p (List.mem_append_right _ List.mem_cons_self) hmoves).1

/-- In every run the table is informed by what was received. -/
theorem Run.informed (run : machine.Run (new mac) t₀ es h t) : Informed (es.map Prod.fst) h := by
  refine run.history (I := fun es h _ => Informed (es.map Prod.fst) h) ?_ ?_
  · exact fun _ _ _ get => absurd get (Option.some_ne_none _).symm
  · rintro es h t ⟨o, now⟩ run hes _ _
    rw [List.map_append]
    exact hes.perform (in_order run).1 (Run.bounded run) o now

/-- No operation of a run is later than its end. -/
theorem Run.moments (run : machine.Run (new mac) t₀ es h t) : ∀ e ∈ es, e.1.2 ≤ t := by
  refine run.history (I := fun es _ t => ∀ e ∈ es, e.1.2 ≤ t)
    (fun _ he => absurd he List.not_mem_nil) ?_
  intro es h t o run hes hle _ e he
  rcases List.mem_append.1 he with he | he
  · exact Nat.le_trans (hes e he) hle
  · rw [List.mem_singleton.1 he]
    exact Nat.le_refl _

/-- A frame of a sequence that carries a packet. Of the labels that make frames only a transmission
carries one. -/
theorem exists_sent {own : Mac} {frame bytes : Bytes} (hframe : frame ∈ frames own ls)
    (hcarries : carried frame = some bytes) :
    ∃ next mac, .sent next mac bytes ∈ ls ∧ frame = ethernet own mac bytes := by
  obtain ⟨l, hl, heq⟩ := List.mem_filterMap.1 hframe
  cases l with
  | took next bytes' => cases heq
  | sent next mac bytes' =>
    cases heq
    rw [carried_ethernet] at hcarries
    cases hcarries
    exact ⟨next, mac, hl, rfl⟩
  | asked a destination =>
    cases heq
    rw [carried_arp] at hcarries
    cases hcarries

/-- In every run, a packet is transmitted to the Ethernet address that its next hop gave in an ARP
message that was received less than 60 seconds before. -/
theorem resolved (run : machine.Run (new mac) t₀ es h t) (later : t ≤ now) {frame bytes : Bytes}
    (hout : frame ∈ (h.perform now o).2.out) (hcarries : carried frame = some bytes) :
    ∃ a arp t', (Op.receive arp, t') ∈ es.map Prod.fst ++ [(o, now)] ∧ t' ≤ now ∧ now < t' + 60000 ∧
      Arp.parse arp = .ok a ∧ h.nextHop (goal bytes) = some a.sender ∧
      frame = ethernet h.mac a.senderMac bytes := by
  obtain ⟨-, ⟨-, hnone, -⟩ | ⟨ls, hmoves, hframes, -⟩⟩ := perform_spec (Run.bounded run).setup o now
  · rw [hnone] at hout
    cases hout
  · rw [← hframes] at hout
    obtain ⟨next, mac', hsent, rfl⟩ := exists_sent hout hcarries
    have i : Informed (es.map Prod.fst ++ [(o, now)]) h := fun ip n mac get known =>
      (Run.informed run ip n mac get known).mono (List.subset_append_left _ _)
    obtain ⟨hop, deadline, hlive, arp, t', a, hmem, hparse, rfl, rfl, hdeadline⟩ :=
      (i.moves (in_order run).1 (List.mem_append_right _ List.mem_cons_self) hmoves).2
      next mac' bytes hsent
    refine ⟨a, arp, t', hmem, ?_, Nat.lt_of_lt_of_le hlive hdeadline, hparse, hop, rfl⟩
    rcases List.mem_append.1 hmem with hold | hnew
    · obtain ⟨e, he, heq⟩ := List.mem_map.1 hold
      have := Run.moments run e he
      rw [heq] at this
      exact Nat.le_trans this later
    · cases List.mem_singleton.1 hnew
      exact Nat.le_refl _

/-- The theorem applied to a run in which a neighbor answers before a packet is sent to it. -/
theorem resolved_greeted : ∃ es h, machine.Run (new hostMac) 0 es h 2 ∧
    ethernet hostMac neighborMac greeting ∈ (h.perform 3 (.send greeting)).2.out ∧
    ∃ a arp t', (Op.receive arp, t') ∈ es.map Prod.fst ++ [(.send greeting, 3)] ∧ t' ≤ 3 ∧
      3 < t' + 60000 ∧ Arp.parse arp = .ok a ∧ h.nextHop (goal greeting) = some a.sender ∧
      ethernet hostMac neighborMac greeting = ethernet h.mac a.senderMac greeting := by
  obtain ⟨es, h, run, -, hout, -⟩ := greeted
  have hmem : ethernet hostMac neighborMac greeting ∈ (h.perform 3 (.send greeting)).2.out := by
    rw [hout]
    exact List.mem_cons_self
  exact ⟨es, h, run, hmem, resolved run (by decide) hmem (carried_ethernet _ _ _)⟩

/-! ## ARP messages -/

/-- An ARP message of a sequence of moves has its purpose and its sender. By induction on the moves:
the move that asks says so itself, and the sender is the address, which no move changes. -/
theorem Moves.asked (m : Moves now heard h ls h') {a : Arp} {destination : Mac}
    (hasked : .asked a destination ∈ ls) : Purpose heard h.mac a destination ∧
      h.address.map Prod.fst = some a.sender ∧
      ((octet h.mac.1 0 &&& 1 = 0 ∧ h.mac ≠ .zero) → a.Sound destination) := by
  induction m with
  | nil h => cases hasked
  | cons move rest ih =>
    rcases List.mem_append.1 hasked with hfirst | hrest
    · cases move with
      | known _ _ _ _ =>
        rcases List.mem_cons.1 hfirst with heq | hfirst
        · cases heq
        · cases List.mem_singleton.1 hfirst
      | wait _ _ _ _ _ _ _ => cases List.mem_singleton.1 hfirst
      | learn _ _ _ _ _ =>
        obtain ⟨_, _, heq⟩ := List.mem_map.1 hfirst
        cases heq
      | ask allowed purpose sender sound =>
        cases List.mem_singleton.1 hfirst
        exact ⟨purpose, sender, sound⟩
      | _ => cases hfirst
    · have := ih hrest
      rw [move.same.mac, move.same.address] at this
      exact this

/-- A frame that carries no packet is an ARP message of one of the moves. Of the labels that make
frames only a question carries none. -/
theorem exists_asked {own : Mac} {frame : Bytes} (hframe : frame ∈ frames own ls)
    (hcarries : carried frame = none) : ∃ a destination, .asked a destination ∈ ls ∧
      frame = a.encode destination := by
  obtain ⟨l, hl, heq⟩ := List.mem_filterMap.1 hframe
  cases l with
  | took next bytes' => cases heq
  | sent next mac bytes' =>
    cases heq
    rw [carried_ethernet] at hcarries
    cases hcarries
  | asked a destination =>
    cases heq
    exact ⟨a, destination, hl, rfl⟩

/-- In every run the host has the address that it was made with. -/
theorem Run.own (run : machine.Run (new mac) t₀ es h t) : h.mac = mac := by
  refine run.history (I := fun _ h _ => h.mac = mac) rfl ?_
  rintro es h t ⟨o, now⟩ run hes _ _
  obtain ⟨-, ⟨hreset, -⟩ | ⟨ls, hmoves, -⟩⟩ := perform_spec (Run.bounded run).setup o now
  · exact hreset.mac.trans hes
  · exact hmoves.same.mac.trans hes

/-- In every run, a frame that carries no packet is an ARP message, which is read as it was written:
it has the addresses of the host, and it asks all or answers the message that is received. -/
theorem arp_sound (hsingle : octet mac.1 0 &&& 1 = 0) (hgiven : mac ≠ .zero)
    (run : machine.Run (new mac) t₀ es h t) {frame : Bytes} (hout : frame ∈ (h.perform now o).2.out)
    (hcarries : carried frame = none) : ∃ a destination, frame = a.encode destination ∧
      Arp.parse frame = .ok a ∧ h.address.map Prod.fst = some a.sender ∧
      Purpose (hears o) mac a destination := by
  have hmac := Run.own run
  obtain ⟨-, ⟨-, hnone, -⟩ | ⟨ls, hmoves, hframes, -⟩⟩ := perform_spec (Run.bounded run).setup o now
  · rw [hnone] at hout
    cases hout
  · rw [← hframes] at hout
    obtain ⟨a, destination, hasked, rfl⟩ := exists_asked hout hcarries
    obtain ⟨purpose, sender, sound⟩ := hmoves.asked hasked
    rw [hmac] at purpose sound
    have hparse := Arp.parse_encode (sound ⟨hsingle, hgiven⟩) []
    rw [List.append_nil] at hparse
    exact ⟨a, destination, rfl, hparse, sender, purpose⟩

/-- The theorem applied to the answer to a question about the host's own address. -/
theorem arp_sound_greeted : ∃ es h frame, machine.Run (new hostMac) 0 es h 2 ∧
    frame ∈ (h.perform 3 (.receive question)).2.out ∧ ∃ a destination,
    frame = a.encode destination ∧
      Arp.parse frame = .ok a ∧ h.address.map Prod.fst = some a.sender ∧
      Purpose (hears (.receive question)) hostMac a destination := by
  obtain ⟨es, h, run, -, -, hout⟩ := greeted
  have hmem := List.mem_cons_self (l := [])
    (a := Arp.encode ⟨2, hostMac, hostIp, neighborMac, neighborIp⟩
    neighborMac)
  rw [← hout] at hmem
  exact ⟨es, h, _, run, hmem, arp_sound (by decide) (by decide) run hmem (carried_arp _ _)⟩

/-- The moments of the ARP messages among the frames of a call. -/
def asking (now : Nat) (out : List Bytes) : List Nat :=
  (out.filter fun frame => (carried frame).isNone).map fun _ => now

/-- The moments of two lists of frames are counted one after the other. -/
theorem asking_append (now : Nat) (out out' : List Bytes) :
    asking now (out ++ out') = asking now out ++ asking now out' := by
  unfold asking
  rw [List.filter_append, List.map_append]

/-- Frames of packets count no moments. -/
theorem asking_ethernet (now : Nat) (own mac : Mac) (queue : List Bytes) :
    asking now (queue.map (ethernet own mac)) = [] := by
  unfold asking
  rw [List.filter_eq_nil_iff.2, List.map_nil]
  intro frame hframe
  obtain ⟨bytes, -, rfl⟩ := List.mem_map.1 hframe
  rw [carried_ethernet]
  exact Bool.false_ne_true

/-- An ARP message counts its moment. -/
theorem asking_arp (now : Nat) (a : Arp) (destination : Mac) :
    asking now [a.encode destination] = [now] := by
  unfold asking
  rw [List.filter_singleton, carried_arp]
  rfl

open Window

/-- A move keeps what the window has admitted. Only two moves ask the window, with the answer of
`allowArp_spec`; the frames of the others are not ARP requests that count. -/
theorem kept_move {ts : List Nat} (hclock : now < u64Max) (k : Kept 32 1000 ts h.arps t)
    (later : t ≤ now) (m : Move now heard h ls h') :
    Kept 32 1000 (ts ++ asking now (frames h.mac ls)) h'.arps now := by
  have hquiet : Kept 32 1000 (ts ++ []) h.arps now := by
    rw [List.append_nil]
    exact k.later later
  have hnext := k.next later (Nat.zero_lt_succ 999)
  cases m with
  | known _ _ _ _ =>
    show Kept 32 1000 (ts ++ asking now ([_].map (ethernet _ _))) _ now
    rw [asking_ethernet]
    exact hquiet
  | learn _ _ _ _ _ =>
    rw [frames_sent, asking_ethernet]
    exact hquiet
  | ask allowed _ _ _ =>
    obtain ⟨b, w, hw, -, hwindow⟩ := allowArp_spec h now
    obtain ⟨hadmits, hw'⟩ := hwindow hclock
    rw [hw] at allowed
    cases allowed
    show Kept 32 1000 (ts ++ asking now [Arp.encode _ _]) w now
    rw [asking_arp, hw']
    rwa [if_pos hadmits.symm] at hnext
  | refuse refused =>
    obtain ⟨b, w, hw, -, hwindow⟩ := allowArp_spec h now
    obtain ⟨hadmits, hw'⟩ := hwindow hclock
    rw [hw] at refused
    cases refused
    show Kept 32 1000 (ts ++ []) w now
    rw [List.append_nil, hw']
    rwa [if_neg (by rw [← hadmits]; exact Bool.false_ne_true)] at hnext
  | _ => exact hquiet

/-- A sequence of moves keeps the window that limits ARP messages. -/
theorem kept_moves {ts : List Nat} (hclock : now < u64Max) (k : Kept 32 1000 ts h.arps t)
    (later : t ≤ now) (m : Moves now heard h ls h') :
    Kept 32 1000 (ts ++ asking now (frames h.mac ls)) h'.arps now := by
  induction m generalizing ts t with
  | nil h =>
    show Kept 32 1000 (ts ++ []) h.arps now
    rw [List.append_nil]
    exact k.later later
  | cons move rest ih =>
    have hrest := ih (kept_move hclock k later move) (Nat.le_refl now)
    rwa [move.same.mac, List.append_assoc, ← asking_append, ← frames_append] at hrest

/-- The moments of the ARP messages of a run. -/
def arpMoments (es : List ((Op × Nat) × Answer)) : List Nat :=
  es.flatMap fun e => asking e.1.2 e.2.out

/-- In every run, at most 64 ARP messages are transmitted in any second: the window admits 32 in
each period of a second, and a second meets two of them. By induction on the run, with `Kept` as the
invariant. -/
theorem arp_rate (run : machine.Run (new mac) t₀ es h t) (hclock : ∀ e ∈ es, e.1.2 < u64Max)
    (start : Nat) :
    within (arpMoments es) start (start + 1000) ≤ 64 := by
  have hkept : (∀ e ∈ es, e.1.2 < u64Max) → Kept 32 1000 (arpMoments es) h.arps t := by
    refine run.history (I := fun es h t =>
      (∀ e ∈ es, e.1.2 < u64Max) → Kept 32 1000 (arpMoments es) h.arps t) ?_ ?_
    · exact fun _ => .nil 32 1000 t₀
    rintro es h t ⟨o, now⟩ run hes later _ hclock
    have k := hes fun e he => hclock e (List.mem_append_left _ he)
    have hnow : now < u64Max := hclock _ (List.mem_append_right _ List.mem_cons_self)
    show Kept 32 1000 (arpMoments (es ++ [((o, now), (h.perform now o).2)]))
      (h.perform now o).1.arps now
    unfold arpMoments at k ⊢
    rw [List.flatMap_append, List.flatMap_singleton]
    obtain ⟨-, ⟨hreset, hout, -⟩ | ⟨ls, hmoves, hframes, -⟩⟩ :=
      perform_spec (Run.bounded run).setup o now
    · have hsame : (h.perform now o).1.arps = h.arps := by
        unfold arps
        rw [hreset.window.1, hreset.window.2]
      rw [hout, hsame]
      show Kept 32 1000 (_ ++ []) h.arps now
      rw [List.append_nil]
      exact k.later later
    · rw [← hframes]
      exact kept_moves hnow k later hmoves
  exact (hkept hclock).bound start

/-- The theorem applied to a run with one ARP message, which is within the rate. -/
theorem arp_rate_greeted : ∃ es h, machine.Run (new hostMac) 0 es h 2 ∧ arpMoments es = [1] ∧
    within (arpMoments es) 0 (0 + 1000) ≤ 64 := by
  obtain ⟨es, h, run, hout, -⟩ := greeted
  have hclock : ∀ e ∈ es, e.1.2 < u64Max := fun e he =>
    Nat.lt_of_le_of_lt (Run.moments run e he) (by decide)
  refine ⟨es, h, run, ?_, arp_rate run hclock 0⟩
  have hall : arpMoments es =
      (es.map fun e => (e.1.2, e.2.out)).flatMap fun e => asking e.1 e.2 := by
    rw [List.flatMap_map]
    rfl
  rw [hall, hout]
  decide +kernel

end SnacMachine.Ipv4
