import SnacMachine.Ipv4.Host
import SnacMachine.Lib.Window

/-!
# What the IPv4 host does to its neighbors

A call that sets a host up forgets its neighbors (`Reset`). Every other call is a sequence of
`Moves`, each of which changes one thing about the neighbors and the packets that wait for them and
may transmit a frame; the frames of the call are those of its moves (`Did`). What holds of every run
is proved of one move at a time.
-/

namespace SnacMachine.Ipv4

open Ip Nat64

/-- The destination of a packet. -/
def goal (bytes : Bytes) : Ipv4Addr := octetsAt bytes 16 4

/-- What happens to packets and ARP messages. -/
inductive Label
  | took (next : Ipv4Addr) (bytes : Bytes)
  | sent (next : Ipv4Addr) (mac : Mac) (bytes : Bytes)
  | asked (a : Arp) (destination : Mac)

/-- The frame that is transmitted. -/
def Label.frame (own : Mac) : Label → Option Bytes
  | .took _ _ => none
  | .sent _ mac bytes => some (ethernet own mac bytes)
  | .asked a destination => some (a.encode destination)

/-- The frames of a sequence, in order. -/
def frames (own : Mac) (ls : List Label) : List Bytes := ls.filterMap (Label.frame own)

/-- What the address, the routes and the neighbors of a host are. -/
structure Setup (h : Ipv4) : Prop where
  address : ∀ a, h.address = some a → a.2 ≤ 32 ∧ unicast a.1 = true ∧ hostAddress a.1 a.2 = true
  gateway : ∀ g, h.gateway = some g → unicast g = true
  routes : h.routes.length ≤ 64
  gateways : ∀ r ∈ h.routes, isUnspecified r.gateway = true ∨ unicast r.gateway = true
  offline : h.address = none → h.neighbors = .empty
  neighbors : ∀ ip n, h.neighbors.get ip = some n → unicast ip = true

/-- A host that is set up again: its neighbors are forgotten. -/
structure Reset (h h' : Ipv4) : Prop where
  setup : Setup h'
  empty : h'.neighbors = .empty
  mac : h'.mac = h.mac
  input : h'.input = [] ∨ h'.input = h.input
  window : h'.arpWindow = h.arpWindow ∧ h'.arpSent = h.arpSent

/-- A host with the same address and the same routes. -/
structure Same (h h' : Ipv4) : Prop where
  mac : h'.mac = h.mac
  address : h'.address = h.address
  gateway : h'.gateway = h.gateway
  routes : h'.routes = h.routes

/-- Why a message is transmitted: to ask all, or to answer a message that was heard. -/
inductive Purpose (heard : Arp → Prop) (own : Mac) : Arp → Mac → Prop
  | request (sender target : Ipv4Addr) :
      Purpose heard own ⟨1, own, sender, .zero, target⟩ .broadcast
  | reply (b : Arp) (asks : heard b ∧ b.operation = 1) :
      Purpose heard own ⟨2, own, b.target, b.senderMac, b.sender⟩ b.senderMac

/-- A move at a moment, when some messages are heard. -/
inductive Move (now : Nat) (heard : Arp → Prop) : Ipv4 → List Label → Ipv4 → Prop
  | input {h : Ipv4} {l : List Bytes}
      (small : l.length ≤ 64 ∧ (l.map List.length).sum ≤ 256 * 1024 ∨ l = h.input.tail) :
      Move now heard h [] { h with input := l }
  | forget {h : Ipv4} (p : Neighbor → Bool) :
      Move now heard h [] { h with neighbors := h.neighbors.retain fun _ n => p n }
  | known {h : Ipv4} {next : Ipv4Addr} {n : Neighbor} {mac : Mac} {bytes : Bytes}
      (hop : h.nextHop (goal bytes) = some next) (get : h.neighbors.get next = some n)
      (known : n.mac = some mac) (live : now < n.deadline) :
      Move now heard h [.took next bytes, .sent next mac bytes] h
  | wait {h : Ipv4} {next : Ipv4Addr} {n : Neighbor} {bytes : Bytes}
      (hop : h.nextHop (goal bytes) = some next)
      (get : (h.neighbors.get next).getD ⟨none, satAdd now 1000, 0, []⟩ = n)
      (unknown : n.mac = none)
      (entries : h.neighbors.contains next = true ∨ h.neighbors.size < 256)
      (packets : h.queuedPackets < 64) (octets : h.queuedBytes + bytes.length ≤ 256 * 1024)
      (each : n.queue.length < 4) :
      Move now heard h [.took next bytes]
        { h with neighbors := h.neighbors.insert next { n with queue := n.queue ++ [bytes] } }
  | learn {h : Ipv4} {a : Arp} {queue : List Bytes} (hears : heard a)
      (online : ∃ address, h.address = some address)
      (sender : unicast a.sender = true)
      (entries : h.neighbors.contains a.sender = true ∨ h.neighbors.size < 256)
      (get : ((h.neighbors.get a.sender).map Neighbor.queue).getD [] = queue) :
      Move now heard h (queue.map (.sent a.sender a.senderMac)) { h with
        neighbors := h.neighbors.insert a.sender ⟨some a.senderMac, satAdd now 60000, 0, []⟩ }
  | ask {h h' : Ipv4} {a : Arp} {destination : Mac} (allowed : h.allowArp now = (true, h'))
      (purpose : Purpose heard h.mac a destination)
      (sender : h.address.map Prod.fst = some a.sender)
      (sound : (octet h.mac.1 0 &&& 1 = 0 ∧ h.mac ≠ .zero) → a.Sound destination) :
      Move now heard h [.asked a destination] h'
  | refuse {h h' : Ipv4} (refused : h.allowArp now = (false, h')) : Move now heard h [] h'
  | retime {h : Ipv4} {ip : Ipv4Addr} {n : Neighbor} (attempts deadline : Nat)
      (get : h.neighbors.get ip = some n) (unknown : n.mac = none) (few : attempts ≤ 3) :
      Move now heard h []
        { h with neighbors := h.neighbors.insert ip { n with attempts, deadline } }

/-- A sequence of moves at a moment, when some messages are heard. -/
inductive Moves (now : Nat) (heard : Arp → Prop) : Ipv4 → List Label → Ipv4 → Prop
  | nil (h : Ipv4) : Moves now heard h [] h
  | cons {h h' h'' : Ipv4} {ls ls' : List Label} (move : Move now heard h ls h')
      (rest : Moves now heard h' ls' h'') : Moves now heard h (ls ++ ls') h''

variable {heard : Arp → Prop} {h h' h'' : Ipv4} {now : Nat} {ls ls' : List Label}

/-- One move is a sequence of moves. -/
theorem Moves.one (m : Move now heard h ls h') : Moves now heard h ls h' := by
  have := Moves.cons m (.nil h')
  rwa [List.append_nil] at this

/-- Sequences of moves are joined. -/
theorem Moves.trans (m : Moves now heard h ls h') (m' : Moves now heard h' ls' h'') :
    Moves now heard h (ls ++ ls') h'' := by
  induction m with
  | nil h => exact m'
  | cons move rest ih =>
    rw [List.append_assoc]
    exact .cons move (ih m')

/-- The frames of two sequences of moves follow one another. -/
theorem frames_append (own : Mac) (ls ls' : List Label) :
    frames own (ls ++ ls') = frames own ls ++ frames own ls' := List.filterMap_append

/-- The frames of a queue that is sent. -/
theorem frames_sent (own : Mac) (next : Ipv4Addr) (mac : Mac) (queue : List Bytes) :
    frames own (queue.map (.sent next mac)) = queue.map (ethernet own mac) := by
  unfold frames
  rw [List.filterMap_map]
  exact List.filterMap_eq_map (f := ethernet own mac) ▸ rfl

/-! ## The next hop -/

/-- What has the greatest key is in the list. By induction on the list, with the comparison of the
source at each element. -/
theorem maxByKey_mem {α : Type} {key : α → Nat} {l : List α} {a : α} (h : maxByKey key l = some a) :
    a ∈ l := by
  induction l generalizing a with
  | nil => cases h
  | cons b l ih =>
    unfold maxByKey at h
    cases hm : maxByKey key l with
    | none =>
      rw [hm] at h
      cases h
      exact List.mem_cons_self
    | some c =>
      rw [hm] at h
      simp only at h
      split at h
      · cases h
        exact List.mem_cons_self
      · cases h
        exact List.mem_cons_of_mem b (ih hm)

/-- A next hop is a host, and there is one only with an address. It is the destination itself or a
gateway, and gateways are checked when they are set up. -/
theorem Setup.nextHop (hs : Setup h) {destination next : Ipv4Addr}
    (hn : h.nextHop destination = some next) : unicast next = true ∧ ∃ a, h.address = some a := by
  unfold Ipv4.nextHop at hn
  split at hn
  · cases hn
  · next a length haddr =>
    refine ⟨?_, (a, length), haddr⟩
    split at hn
    · cases hn
    · next huni =>
      have huni : unicast destination = true := by simpa using huni
      split at hn
      · cases hn
      · split at hn
        · next r hr =>
          cases hn
          split
          · exact huni
          · next hspec =>
            have hmem := maxByKey_mem (Option.filter_eq_some_iff.1 hr).1
            exact (hs.gateways r (List.mem_filter.1 hmem).1).resolve_left hspec
        · split at hn
          · cases hn
            exact huni
          · exact hs.gateway next hn

/-! ## The calls -/

/-- The packets that are taken. -/
def Label.packet : Label → Option Bytes
  | .took _ bytes => some bytes
  | _ => none

/-- The packets that a sequence takes. -/
def taken (ls : List Label) : List Bytes := ls.filterMap Label.packet

/-- What two sequences of moves take is taken one after the other. -/
theorem taken_append (ls ls' : List Label) : taken (ls ++ ls') = taken ls ++ taken ls' :=
  List.filterMap_append

/-- Sending a queue takes no new packets. -/
theorem taken_sent (next : Ipv4Addr) (mac : Mac) (queue : List Bytes) :
    taken (queue.map (.sent next mac)) = [] := by
  unfold taken
  rw [List.filterMap_map]
  exact List.filterMap_eq_nil_iff.2 fun _ _ => rfl

/-- A call that takes some packets and transmits some frames. -/
def Did (now : Nat) (heard : Arp → Prop) (h : Ipv4) (packets out : List Bytes) (h' : Ipv4) : Prop :=
  ∃ ls, Moves now heard h ls h' ∧ frames h.mac ls = out ∧ taken ls = packets

/-- A call that does nothing. -/
theorem Did.nil (h : Ipv4) : Did now heard h [] [] h := ⟨[], .nil h, rfl, rfl⟩

/-- A call that does one silent move. -/
theorem Did.quiet (m : Move now heard h [] h') : Did now heard h [] [] h' := ⟨[], .one m, rfl, rfl⟩

/-- The window of ARP messages. -/
def arps (h : Ipv4) : Window := ⟨h.arpWindow, h.arpSent⟩

/-- The same host with another window. -/
def withArps (h : Ipv4) (w : Window) : Ipv4 := { h with arpWindow := w.start, arpSent := w.sent }

/-- Asking for an ARP message is an event for the window, as long as the clock has not ended. At its
end the deadline of the window is saturated, which is why the exact statement needs the bound. -/
theorem allowArp_spec (h : Ipv4) (now : Nat) : ∃ b w, h.allowArp now = (b, h.withArps w) ∧
    (h.arpSent ≤ 32 → w.sent ≤ 32) ∧
    (now < u64Max → b = h.arps.admits 32 1000 now ∧ w = h.arps.next 32 1000 now) := by
  have hsat : now < u64Max → (now ≥ satAdd h.arpWindow 1000 ↔ now ≥ h.arpWindow + 1000) := by
    intro hlt
    unfold satAdd
    omega
  unfold Ipv4.allowArp Window.next Window.admits Window.turn
  by_cases hopen : now ≥ satAdd h.arpWindow 1000
  · refine ⟨true, ⟨now, 1⟩, ?_, fun _ => Nat.one_le_ofNat, fun hlt => ?_⟩
    · rw [if_pos hopen]
      rfl
    · have hturn : now ≥ h.arps.start + 1000 := (hsat hlt).1 hopen
      rw [if_pos hturn]
      exact ⟨rfl, rfl⟩
  · rw [if_neg hopen]
    by_cases hfull : h.arpSent ≥ 32
    · refine ⟨false, h.arps, ?_, fun hle => hle, fun hlt => ?_⟩
      · simp only [if_pos hfull]
        rfl
      · have hturn : ¬ now ≥ h.arps.start + 1000 := fun hge => hopen ((hsat hlt).2 hge)
        have hno : decide (h.arps.sent < 32) = false := decide_eq_false (Nat.not_lt.2 hfull)
        rw [if_neg hturn, hno]
        exact ⟨rfl, rfl⟩
    · refine ⟨true, ⟨h.arpWindow, h.arpSent + 1⟩, ?_, fun _ => ?_, fun hlt => ?_⟩
      · simp only [if_neg hfull]
        rfl
      · simp only
        omega
      · have hturn : ¬ now ≥ h.arps.start + 1000 := fun hge => hopen ((hsat hlt).2 hge)
        have hyes : decide (h.arps.sent < 32) = true := decide_eq_true (Nat.lt_of_not_le hfull)
        rw [if_neg hturn, hyes]
        exact ⟨rfl, rfl⟩

/-- Nothing changed. -/
theorem Same.refl (h : Ipv4) : Same h h := ⟨rfl, rfl, rfl, rfl⟩

/-- What stays in two steps stays in both. -/
theorem Same.trans (s : Same h h') (s' : Same h' h'') : Same h h'' :=
  ⟨s'.mac.trans s.mac, s'.address.trans s.address, s'.gateway.trans s.gateway,
    s'.routes.trans s.routes⟩

/-- The next hop depends on the address and the routes only. -/
theorem Same.nextHop (s : Same h h') (destination : Ipv4Addr) :
    h'.nextHop destination = h.nextHop destination := by
  unfold Ipv4.nextHop Ipv4.route
  rw [s.address, s.gateway, s.routes]

/-- Counting an ARP message changes the count only. -/
theorem allowArp_same {b : Bool} (hallow : h.allowArp now = (b, h')) : Same h h' := by
  obtain ⟨b', w, hw, -⟩ := allowArp_spec h now
  rw [hw] at hallow
  cases hallow
  exact ⟨rfl, rfl, rfl, rfl⟩

/-- No move changes the address or the routes. -/
theorem Move.same (m : Move now heard h ls h') : Same h h' := by
  cases m with
  | ask allowed _ _ _ => exact allowArp_same allowed
  | refuse refused => exact allowArp_same refused
  | _ => exact ⟨rfl, rfl, rfl, rfl⟩

/-- No sequence of moves changes the address or the routes. -/
theorem Moves.same (m : Moves now heard h ls h') : Same h h' := by
  induction m with
  | nil h => exact .refl h
  | cons move _ ih => exact move.same.trans ih

/-- The setup is kept. One case for each move: addresses, routes and gateways are left alone by all
of them, and a neighbor is entered only with a unicast address while the host is set up. -/
theorem Setup.move (hs : Setup h) (m : Move now heard h ls h') : Setup h' := by
  have hinsert : ∀ {next : Ipv4Addr} (n : Neighbor), (∃ a, h.address = some a) →
      unicast next = true → Setup { h with
        neighbors := h.neighbors.insert next n } := by
    rintro next n ⟨a, ha⟩ huni
    refine ⟨hs.address, hs.gateway, hs.routes, hs.gateways, fun hno => ?_, fun ip n' hn' => ?_⟩
    · rw [show h.address = none from hno] at ha
      cases ha
    · rw [OrdMap.get_insert_eq] at hn'
      split at hn'
      · next heq => rwa [← heq]
      · exact hs.neighbors ip n' hn'
  have hwindow : ∀ {b : Bool}, h.allowArp now = (b, h') → Setup h' := by
    intro b hallow
    obtain ⟨b', w, hw, -⟩ := allowArp_spec h now
    rw [hw] at hallow
    cases hallow
    exact ⟨hs.address, hs.gateway, hs.routes, hs.gateways, hs.offline, hs.neighbors⟩
  cases m with
  | input _ => exact ⟨hs.address, hs.gateway, hs.routes, hs.gateways, hs.offline, hs.neighbors⟩
  | forget p =>
    refine ⟨hs.address, hs.gateway, hs.routes, hs.gateways, fun hno => ?_, fun ip n hn => ?_⟩
    · rw [hs.offline hno]
      rfl
    · rw [OrdMap.get_retain_values] at hn
      exact hs.neighbors ip n (Option.filter_eq_some_iff.1 hn).1
  | known hop get known live => exact hs
  | wait hop get unknown entries packets octets each =>
    obtain ⟨huni, haddr⟩ := hs.nextHop hop
    exact hinsert _ haddr huni
  | learn hears online sender entries get => exact hinsert _ online sender
  | ask allowed _ _ _ => exact hwindow allowed
  | refuse refused => exact hwindow refused
  | retime attempts deadline get unknown few =>
    refine hinsert _ ?_ (hs.neighbors _ _ get)
    cases haddr : h.address with
    | none =>
      rw [hs.offline haddr] at get
      cases get
    | some a => exact ⟨a, rfl⟩

/-- Moves keep what was set up. -/
theorem Setup.moves (hs : Setup h) (m : Moves now heard h ls h') : Setup h' := by
  induction m with
  | nil h => exact hs
  | cons move _ ih => exact ih (hs.move move)

/-- A call that is made of moves keeps what was set up. -/
theorem Setup.did {packets out : List Bytes} (hs : Setup h) (d : Did now heard h packets out h') :
    Setup h' := by
  obtain ⟨ls, hm, -⟩ := d
  exact hs.moves hm

/-- Calls that are made of moves, one after the other. -/
theorem Did.trans {packets packets' out out' : List Bytes} (d : Did now heard h packets out h')
    (d' : Did now heard h' packets' out' h'') :
    Did now heard h (packets ++ packets') (out ++ out') h'' := by
  obtain ⟨ls, hm, rfl, rfl⟩ := d
  obtain ⟨ls', hm', rfl, rfl⟩ := d'
  exact ⟨ls ++ ls', hm.trans hm', by rw [frames_append, hm.same.mac], taken_append ls ls'⟩

/-- A silent move after a call adds nothing to what it sent. -/
theorem Did.quietly {packets out : List Bytes} (d : Did now heard h packets out h')
    (m : Move now heard h' [] h'') :
    Did now heard h packets out h'' := by
  have := d.trans (.quiet m)
  rwa [List.append_nil, List.append_nil] at this

/-- Setting the address fails and changes nothing, or sets the host up anew. What the function
checks first are the clauses of the setup. -/
theorem configure_reset (h : Ipv4) (address : Ipv4Addr) (length : Nat) (gateway : Option Ipv4Addr) :
    (h.configure address length gateway).2 = h ∨
    Reset h (h.configure address length gateway).2 := by
  unfold Ipv4.configure
  split
  · exact .inl rfl
  · next hok =>
    simp only [not_or, Bool.not_eq_false, Bool.not_eq_true] at hok
    obtain ⟨hlength, huni, hhost, hgateway⟩ := hok
    refine .inr ⟨⟨?_, ?_, ?_, ?_, ?_, ?_⟩, rfl, rfl, .inl rfl, rfl, rfl⟩
    · intro a ha
      cases ha
      exact ⟨Nat.not_lt.1 hlength, huni, hhost⟩
    · intro g hg
      cases hg
      have hgateway : unicast g = true ∧ samePrefix address g length = true := by
        simpa using hgateway
      exact hgateway.1
    · exact Nat.zero_le 64
    · exact fun _ hr => absurd hr List.not_mem_nil
    · exact fun h => absurd h (Option.some_ne_none _)
    · exact fun _ _ h => absurd h (Option.some_ne_none _).symm

/-- Losing the address sets the host up anew. -/
theorem unavailable_reset (h : Ipv4) : Reset h h.unavailable := by
  refine ⟨⟨?_, ?_, Nat.zero_le 64, ?_, fun _ => rfl, ?_⟩, rfl, rfl, .inl rfl, rfl, rfl⟩
  · exact fun _ ha => absurd ha (Option.some_ne_none _).symm
  · exact fun _ hg => absurd hg (Option.some_ne_none _).symm
  · exact fun _ hr => absurd hr List.not_mem_nil
  · exact fun _ _ h => absurd h (Option.some_ne_none _).symm

/-- Setting the routes fails and changes nothing, or sets the host up anew. Each route has passed
`refuses_route`, so that its gateway is unspecified or a host of the network. -/
theorem setRoutes_reset (hs : Setup h) (routes : List Route) :
    (h.setRoutes routes).2 = h ∨ Reset h (h.setRoutes routes).2 := by
  unfold Ipv4.setRoutes
  split
  · exact .inl rfl
  · next address length haddr =>
    split
    · exact .inl rfl
    · next hok =>
      simp only [not_or, Bool.not_eq_true, List.any_eq_false] at hok
      obtain ⟨hcount, hroutes⟩ := hok
      refine .inr ⟨⟨hs.address, hs.gateway, Nat.not_lt.1 hcount, ?_, fun _ => rfl,
        fun _ _ h => absurd h (Option.some_ne_none _).symm⟩, rfl, rfl, .inr rfl, rfl, rfl⟩
      intro r hr
      have hr := hroutes r hr
      unfold Ipv4.refusesRoute at hr
      cases hu : isUnspecified r.gateway with
      | true => exact .inl rfl
      | false =>
        right
        have hgateway : unicast r.gateway = true ∧ hostAddress r.gateway length = true ∧
            samePrefix address r.gateway length = true := by
          simpa [hu, and_assoc] using (Bool.or_eq_false_iff.1 hr).2
        exact hgateway.1

/-- Taking a packet out of the input is a silent move. -/
theorem takePacket_did (h : Ipv4) : Did now heard h [] [] h.takePacket.2 :=
  .quiet (.input (.inr rfl))

/-! ## Sending -/

/-- A host is not the unspecified address. -/
theorem isUnspecified_of_unicast {ip : Ipv4Addr} (h : unicast ip = true) :
    isUnspecified ip = false := by
  unfold unicast at h
  simp only [Bool.and_eq_true, bne_iff_ne] at h
  exact beq_eq_false_iff_ne.2 h.1.1.1.1.1

/-- A packet that is read is within the octets that came, and has their destination. Padding behind
the packet is cut off, and the destination stands before it. -/
theorem parse_bytes {packet : Bytes} {p : Packet} (h : Packet.parse packet = .ok p) :
    p.bytes.length ≤ packet.length ∧ goal p.bytes = p.destination := by
  unfold Packet.parse Packet.parseInner at h
  split at h
  · cases h
  · next hlong =>
    simp only at h
    split at h
    · cases h
    · next hsize =>
      split at h
      · cases h
      · split at h
        · cases h
        · cases h
          refine ⟨?_, Subtype.ext ?_⟩
          · simp only [List.length_take]
            omega
          · show ((List.take _ packet).drop 16 ++ List.replicate 4 0).take 4 =
              (packet.drop 16 ++ List.replicate 4 0).take 4
            rw [List.take_append_of_le_length
                (by simp only [List.length_drop, List.length_take]; omega),
              List.take_append_of_le_length (by rw [List.length_drop]; omega), List.drop_take,
              List.take_take]
            congr 1
            omega

/-- A neighbor is asked for. The rate limit has admitted the message, and the address of the host is
its sender. -/
theorem probe_did (hs : Setup h) {h₁ : Ipv4} {next : Ipv4Addr} (huni : unicast next = true)
    (haddr : ∃ a, h.address = some a) (hallow : h.allowArp now = (true, h₁)) :
    ∃ frame, h₁.probe next = some frame ∧ Did now heard h [] [frame] h₁ := by
  obtain ⟨⟨address, length⟩, haddr⟩ := haddr
  obtain ⟨b, w, hw, -⟩ := allowArp_spec h now
  rw [hw] at hallow
  cases hallow
  refine ⟨_, congrArg (Option.map _) haddr, _,
    .one (.ask hw (.request _ _) (congrArg (Option.map _) haddr) ?_), rfl, rfl⟩
  rintro ⟨hsingle, hgiven⟩
  have hrequest : (1 : UInt16) ≠ 2 := by decide
  exact ⟨.inl rfl, hsingle, hgiven, fun h => (hrequest h).elim, fun h => (hrequest h).elim,
    .inr (hs.address _ haddr).2.1, .inl huni⟩

/-- A packet waits, and its neighbor is asked for if it is new. The packet enters the queue first,
and the ARP request follows if the window admits it. -/
theorem enqueue_did (hs : Setup h) {next : Ipv4Addr} {bytes : Bytes}
    (hop : h.nextHop (goal bytes) = some next) {n : Neighbor}
    (get : (h.neighbors.get next).getD ⟨none, satAdd now 1000, 0, []⟩ = n) (unknown : n.mac = none)
    (entries : h.neighbors.contains next = true ∨ h.neighbors.size < 256)
    (packets : h.queuedPackets < 64) (octets : h.queuedBytes + bytes.length ≤ 256 * 1024)
    (each : n.queue.length < 4) :
    ∃ out h', h.enqueue next bytes now = some (.ok out, h') ∧ Did now heard h [bytes] out h' := by
  obtain ⟨huni, haddr⟩ := hs.nextHop hop
  obtain ⟨n', hn'⟩ : ∃ n' : Neighbor, { n with queue := n.queue ++ [bytes] } = n' := ⟨_, rfl⟩
  obtain ⟨h₁, hh₁⟩ : ∃ h₁ : Ipv4, { h with neighbors := h.neighbors.insert next n' } = h₁ :=
    ⟨_, rfl⟩
  have hwait : Did now heard h [bytes] [] h₁ := by
    rw [← hh₁, ← hn']
    exact ⟨_, .one (.wait hop get unknown entries packets octets each), rfl, rfl⟩
  have hs₁ : Setup h₁ := hs.did hwait
  have haddr₁ : ∃ a, h₁.address = some a := by
    rw [← hh₁]
    exact haddr
  unfold Ipv4.enqueue
  simp only [get, hn', hh₁]
  split
  · obtain ⟨b, w, hallow, -⟩ := allowArp_spec h₁ now
    rw [hallow]
    cases b with
    | false => exact ⟨[], _, rfl, hwait.trans (.quiet (.refuse hallow))⟩
    | true =>
      obtain ⟨frame, hprobe, hdid⟩ := probe_did hs₁ huni haddr₁ hallow
      have hget : (h₁.withArps w).neighbors.get next = some n' := by
        rw [← hh₁]
        exact OrdMap.get_insert_self _ _ _
      have hunknown : n'.mac = none := by
        rw [← hn']
        exact unknown
      have hretime := hwait.trans (hdid.trans (.quiet
        (.retime 1 n'.deadline hget hunknown (by decide))))
      refine ⟨[frame], _, ?_, hretime⟩
      subst hn' hh₁
      exact congrArg (Option.map _) hprobe
  · exact ⟨[], h₁, rfl, hwait⟩

/-- Sending a packet fails, or takes the packet and does what its next hop needs: it is transmitted
to a neighbor that is known, or waits for one that is not, if the limits of the queue allow it. -/
theorem send_did (heard : Arp → Prop) (hs : Setup h) (packet : Bytes) (now : Nat) :
    ∃ r h', h.send packet now = some (r, h') ∧
      ((∃ e, r = .error e ∧ Did now heard h [] [] h') ∨
        ∃ p out, Packet.parse packet = .ok p ∧ r = .ok out ∧ Did now heard h [p.bytes] out h') := by
  unfold Ipv4.send
  cases hparse : Packet.parse packet with
  | error e => exact ⟨_, h, rfl, .inl ⟨e, rfl, .nil h⟩⟩
  | ok p =>
    obtain ⟨hshort, hgoal⟩ := parse_bytes hparse
    dsimp only
    cases hhop : h.nextHop p.destination with
    | none => exact ⟨_, h, rfl, .inl ⟨_, rfl, .nil h⟩⟩
    | some next =>
      have hhop' : h.nextHop (goal p.bytes) = some next := hgoal ▸ hhop
      dsimp only
      cases hknown : h.sendKnown next p.bytes now with
      | some frame =>
        unfold Ipv4.sendKnown at hknown
        obtain ⟨n, hn, hframe⟩ := Option.bind_eq_some_iff.1 hknown
        split at hframe
        · next hlive =>
          obtain ⟨mac, hmac, rfl⟩ := Option.map_eq_some_iff.1 hframe
          exact ⟨_, h, rfl, .inr ⟨p, _, rfl, rfl, _,
            .one (.known hhop' hn hmac hlive), rfl, rfl⟩⟩
        · cases hframe
      | none =>
        obtain ⟨h₁, hh₁⟩ : ∃ h₁ : Ipv4, { h with
          neighbors := h.neighbors.retain fun _ n => n.mac.isNone || n.deadline > now } =
            h₁ := ⟨_, rfl⟩
        have hforget : Did now heard h [] [] h₁ := by
          rw [← hh₁]
          exact .quiet (.forget fun n => n.mac.isNone || n.deadline > now)
        simp only [hh₁]
        split
        · exact ⟨_, h₁, rfl, .inl ⟨_, rfl, hforget⟩⟩
        · next hroom =>
          unfold Ipv4.full at hroom
          simp only [Bool.or_eq_true, not_or, Bool.and_eq_true, beq_iff_eq, decide_eq_true_eq,
            not_and] at hroom
          obtain ⟨⟨⟨hentries, hpackets⟩, hoctets⟩, heach⟩ := hroom
          have hunknown :
              ((h₁.neighbors.get next).getD ⟨none, satAdd now 1000, 0, []⟩).mac = none := by
            cases hget : h₁.neighbors.get next with
            | none => rfl
            | some n =>
              rw [← hh₁, OrdMap.get_retain_values, Option.filter_eq_some_iff] at hget
              unfold Ipv4.sendKnown at hknown
              rw [hget.1, Option.bind_some] at hknown
              rcases Bool.or_eq_true_iff.1 hget.2 with hnone | hlive
              · exact Option.isNone_iff_eq_none.1 hnone
              · rw [if_pos (of_decide_eq_true hlive)] at hknown
                exact Option.map_eq_none_iff.1 hknown
          have heach :
              ((h₁.neighbors.get next).getD ⟨none, satAdd now 1000, 0, []⟩).queue.length < 4 := by
            cases hget : h₁.neighbors.get next with
            | none => exact Nat.zero_lt_succ 3
            | some n =>
              rw [hget] at heach
              simpa using heach
          obtain ⟨out, h', hcall, hdid⟩ := enqueue_did (hs.did hforget)
            (show h₁.nextHop (goal p.bytes) = some next by rw [← hh₁]; exact hhop') rfl hunknown
            (by
              cases hc : h₁.neighbors.contains next with
              | true => exact .inl rfl
              | false => exact .inr (Nat.lt_of_not_le (hentries hc)))
            (Nat.lt_of_not_le hpackets) (by omega) heach
          exact ⟨_, h', hcall, .inr ⟨p, out, rfl, rfl, hforget.trans hdid⟩⟩

/-! ## Receiving -/

/-- Receiving a packet is a silent move. The packet is put into the input if both limits leave room,
and dropped otherwise. -/
theorem receivePacket_did (h : Ipv4) {address : Ipv4Addr} {frame : Bytes} :
    Did now heard h [] [] (h.receivePacket address frame) := by
  unfold Ipv4.receivePacket
  split
  · exact .nil h
  · split
    · next hroom =>
      obtain ⟨-, -, -, -, hcount, hoctets⟩ := hroom
      refine .quiet (.input (.inl ⟨?_, ?_⟩))
      · rw [List.length_append]
        exact hcount
      · rwa [List.map_append, List.sum_append, List.map_singleton, List.sum_singleton]
    · exact .nil h

/-- Learning from an ARP message is a move that sends what waited. -/
theorem learn_did {a : Arp} {destination : Mac} (hears : heard a) (hsound : a.Sound destination)
    (online : ∃ address, h.address = some address) (hlearns : h.learns a = true) :
    Did now heard h [] (h.learn a now).1 (h.learn a now).2 := by
  unfold Ipv4.learns at hlearns
  simp only [Bool.and_eq_true, Bool.or_eq_true, beq_iff_eq, decide_eq_true_eq] at hlearns
  obtain ⟨⟨⟨hgiven, -⟩, hentries⟩, -⟩ := hlearns
  have hsender : unicast a.sender = true := by
    refine hsound.sender.resolve_left ?_
    rw [hgiven]
    exact Bool.false_ne_true
  exact ⟨_, .one (.learn hears online hsender hentries rfl), frames_sent _ _ _ _, taken_sent _ _ _⟩

/-- Receiving a frame is made of moves: learning from it, answering it, or keeping its packet. A
message is heard for every sender that may be learned, and answered only if it asks for the own
address. -/
theorem receive_did (hs : Setup h) (frame : Bytes)
    (hheard : ∀ a, Arp.parse frame = .ok a → heard a) :
    Did now heard h [] (h.receive frame now).1 (h.receive frame now).2 := by
  unfold Ipv4.receive
  split
  · exact .nil h
  · next address length haddr =>
    split
    · exact .nil h
    · split
      · exact receivePacket_did h
      · cases hparse : Arp.parse frame with
        | error e => exact .nil h
        | ok a =>
          have hsound := Arp.sound hparse
          have hears := hheard a hparse
          dsimp only
          split
          · exact .nil h
          next hok =>
            have htarget : a.target = address := by
              simp only [not_or, not_not] at hok
              exact hok.2.2.1
            obtain ⟨out, h₁, hpair, hdid⟩ : ∃ out h₁,
                (if h.learns a then h.learn a now else ([], h)) = (out, h₁) ∧
                  Did now heard h [] out h₁ ∧ h₁.address = h.address := by
              by_cases hlearns : h.learns a = true
              · rw [if_pos hlearns]
                exact ⟨_, _, rfl, learn_did hears hsound ⟨_, haddr⟩ hlearns, rfl⟩
              · rw [if_neg hlearns]
                exact ⟨_, _, rfl, .nil h, rfl⟩
            obtain ⟨hdid, haddr₁⟩ := hdid
            rw [hpair]
            dsimp only
            split
            next hasks =>
              obtain ⟨b, w, hallow, -⟩ := allowArp_spec h₁ now
              rw [hallow]
              cases b with
              | false => exact hdid.quietly (.refuse hallow)
              | true =>
                rw [← htarget] at haddr ⊢
                refine hdid.trans ⟨_, .one (.ask hallow (.reply a ⟨hears, hasks⟩)
                  (congrArg (Option.map _) (haddr₁.trans haddr)) ?_), rfl, rfl⟩
                rintro ⟨hsingle, hgiven⟩
                have huni := (hs.address _ haddr).2.1
                refine ⟨.inr rfl, hsingle, hgiven, fun _ => isUnspecified_of_unicast huni,
                  fun _ _ => rfl, .inr huni, ?_⟩
                rcases hsound.sender with hu | hu
                · exact .inr ⟨rfl, hu⟩
                · exact .inl hu
            · exact hdid

/-! ## Polling -/

/-- What is asked again for an unknown neighbor: nothing if the window refuses it, and otherwise one
more request, which counts for this neighbor only. -/
theorem askAgain_did (hs : Setup h) {ip : Ipv4Addr} {n : Neighbor}
    (hn : h.neighbors.get ip = some n) (hunknown : n.mac = none) (hfew : n.attempts < 3) :
    ∃ r h', h.askAgain ip now = some (r, h') ∧
      Did now heard h [] r.toList h' ∧ ∀ ip', ip ≠ ip' →
      h'.neighbors.get ip' = h.neighbors.get ip' := by
  obtain ⟨b, w, hallow, -⟩ := allowArp_spec h now
  unfold Ipv4.askAgain
  rw [hallow]
  cases b with
  | false => exact ⟨none, h.withArps w, rfl, .quiet (.refuse hallow), fun _ _ => rfl⟩
  | true =>
    have haddr : ∃ a, h.address = some a := by
      cases haddr : h.address with
      | none =>
        rw [hs.offline haddr] at hn
        cases hn
      | some a => exact ⟨a, rfl⟩
    obtain ⟨frame, hprobe, hasked⟩ := probe_did hs (hs.neighbors ip n hn) haddr hallow
    obtain ⟨n', hn'⟩ : ∃ n' : Neighbor, { n with
      attempts := n.attempts + 1, deadline := satAdd now 1000 } = n' := ⟨_, rfl⟩
    have hget : (h.withArps w).neighbors.get ip = some n := hn
    have hretime : Move now heard _ _ _ :=
      .retime (n.attempts + 1) (satAdd now 1000) hget hunknown hfew
    simp only [hget, Option.bind_some, hn'] at hretime ⊢
    refine ⟨some frame, _, congrArg (Option.map _) hprobe, hasked.trans (.quiet hretime),
      fun ip' hne => ?_⟩
    show ((h.withArps w).neighbors.insert ip n').get ip' = h.neighbors.get ip'
    rw [OrdMap.get_insert_eq, if_neg hne]
    rfl

/-- The neighbors that are asked for again are unknown, and were not asked for three times. By
induction on the addresses, which are different; the loop ends when the window refuses. -/
theorem pollProbes_did : ∀ {ips : List Ipv4Addr} {h : Ipv4}, Setup h → ips.Nodup →
    (∀ ip ∈ ips, ∃ n, h.neighbors.get ip = some n ∧ n.mac = none ∧ n.attempts < 3) →
    ∃ out h', pollProbes now ips h = some (out, h') ∧ Did now heard h [] out h' := by
  intro ips
  induction ips with
  | nil =>
    intro h _ _ _
    exact ⟨[], h, rfl, .nil h⟩
  | cons ip ips ih =>
    intro h hs hnodup hdue
    obtain ⟨hfresh, hnodup⟩ := List.nodup_cons.1 hnodup
    obtain ⟨n, hn, hunknown, hfew⟩ := hdue ip List.mem_cons_self
    obtain ⟨r, h₁, hask, hfirst, hsame⟩ := askAgain_did hs hn hunknown hfew
    unfold pollProbes
    rw [hask, Option.bind_some]
    cases r with
    | none => exact ⟨[], h₁, rfl, hfirst⟩
    | some frame =>
      obtain ⟨out, h', hcall, hdid⟩ := ih (hs.did hfirst) hnodup fun ip' hip' => by
        rw [hsame ip' fun heq => hfresh (heq ▸ hip')]
        exact hdue ip' (List.mem_cons_of_mem ip hip')
      exact ⟨frame :: out, h', congrArg (Option.map _) hcall, hfirst.trans hdid⟩

/-- `poll` does not panic. The neighbors that are probed are found before the loop, and each of them
is still there when its turn comes. -/
theorem poll_did (hs : Setup h) (now : Nat) :
    ∃ out h', h.poll now = some (out, h') ∧ Did now heard h [] out h' := by
  have hforget : Did now heard h [] [] { h with
      neighbors := h.neighbors.retain fun _ n => pollKeeps now n } := .quiet
        (.forget (pollKeeps now))
  obtain ⟨out, h', hcall, hdid⟩ := pollProbes_did (hs.did hforget)
    (OrdMap.keys_nodup (h.neighbors.retain fun _ n => !decide (now < n.deadline) &&
      pollKeeps now n)) (by
    intro ip hip
    obtain ⟨⟨ip', n⟩, hmem, rfl⟩ := List.mem_map.1 hip
    have hget := OrdMap.get_of_mem hmem
    rw [OrdMap.get_retain_values, Option.filter_eq_some_iff, Bool.and_eq_true] at hget
    obtain ⟨hget, hlate, hkeeps⟩ := hget
    refine ⟨n, ?_, ?_⟩
    · show (h.neighbors.retain fun _ n => pollKeeps now n).get ip' = some n
      rw [OrdMap.get_retain_values, hget]
      exact Option.filter_eq_some_iff.2 ⟨rfl, hkeeps⟩
    · have hlate : ¬ now < n.deadline := by simpa using hlate
      unfold pollKeeps at hkeeps
      simpa [hlate] using hkeeps)
  exact ⟨out, h', hcall, hforget.trans hdid⟩

end SnacMachine.Ipv4
