import SnacMachine.Ipv4.Moves

/-!
# DHCPv4 replies

The replies of a DHCPv4 server (`ipv4/dhcp/wire.rs`): what `Message.parse` accepts, and the lease
that it gives (`Message.lease`). Whatever the octets of a reply are, its lease is one that the IPv4
host takes (`Message.lease_sound`).
-/

namespace SnacMachine.Ipv4

open Ip Nat64

/-- Reference: `Configuration` (`ipv4/dhcp/mod.rs:5`). -/
structure Configuration where
  address : Ipv4Addr
  length : Nat
  routes : List Route
  dns : List Ipv4Addr
  search : List (List Bytes)

/-- Reference: `Lease` (`ipv4/dhcp/mod.rs:13`). -/
structure Lease where
  config : Configuration
  server : Ipv4Addr
  t1 : Nat
  t2 : Nat
  expires : Nat

/-- Reference: `invalid` (`ipv4/dhcp/wire.rs:10`). -/
def invalidReply : IoError := ⟨.invalidData, "invalid DHCPv4 reply"⟩

/-- Reference: `ip` (`ipv4/dhcp/wire.rs:13`). -/
def readIp (b : Bytes) : Except IoError Ipv4Addr :=
  if h : b.length = 4 then .ok ⟨b, h⟩ else .error invalidReply

/-- Reference: `OPTION_BYTES` (`ipv4/dhcp/wire.rs:9`). -/
def optionBytes : Nat := 4096

/-- Reference: `parse_options` (`ipv4/dhcp/wire.rs:185`); the first argument bounds the options,
each of which has an octet. -/
def parseOptionsLoop (overloaded : Bool) :
    Nat → Bytes → OrdMap UInt8 Bytes → Nat → Except IoError (OrdMap UInt8 Bytes × Nat)
  | 0, _, _, _ => .error invalidReply
  | _ + 1, [], _, _ => .error invalidReply
  | fuel + 1, code :: rest, options, budget =>
    if code = 0 then parseOptionsLoop overloaded fuel rest options budget
    else if code = 255 then .ok (options, budget)
    else
      match rest with
      | [] => .error invalidReply
      | n :: rest =>
        if overloaded ∧ code = 52 then .error invalidReply
        else if n.toNat > rest.length ∨ budget + n.toNat > optionBytes then .error invalidReply
        else parseOptionsLoop overloaded fuel (rest.drop n.toNat)
          (options.insert code ((options.get code).getD [] ++ rest.take n.toNat)) (budget + n.toNat)

/-- Reference: `parse_options` (`ipv4/dhcp/wire.rs:185`). -/
def parseOptions (b : Bytes) (options : OrdMap UInt8 Bytes) (budget : Nat) (overloaded : Bool) :
    Except IoError (OrdMap UInt8 Bytes × Nat) :=
  parseOptionsLoop overloaded (b.length + 1) b options budget

/-- Reference: `addresses` (`ipv4/dhcp/wire.rs:218`). -/
def addresses : Nat → Bytes → Except IoError (List Ipv4Addr)
  | cap + 1, a :: b :: c :: d :: rest =>
    if unicast (.new a b c d) = false then .error invalidReply
    else if rest = [] then .ok [.new a b c d]
    else (addresses cap rest).map (.new a b c d :: ·)
  | _, _ => .error invalidReply

/-- The first bits of an address. -/
def maskAddress (b : Bytes) (length : Nat) : Ipv4Addr :=
  ⟨toBe 4 (ofBe (b ++ List.replicate (4 - b.length) 0) / 2 ^ (32 - length) * 2 ^ (32 - length)),
    length_toBe 4 _⟩

/-- The loop of `routes`; the first argument bounds the routes, each of which has five octets.
Reference: `routes` (`ipv4/dhcp/wire.rs:238`). -/
def readRoutesLoop : Nat → Bytes → List Route → Except IoError (List Route)
  | _, [], out => .ok out
  | 0, _ :: _, _ => .error invalidReply
  | fuel + 1, length :: rest, out =>
    let n := (length.toNat + 7) / 8
    if length.toNat > 32 ∨ n + 4 > rest.length ∨ out.length ≥ 64 then .error invalidReply
    else readRoutesLoop fuel (rest.drop (n + 4))
      (out ++ [⟨maskAddress (rest.take n) length.toNat, length.toNat, octetsAt rest n 4⟩])

/-- Reference: `routes` (`ipv4/dhcp/wire.rs:232`). -/
def readRoutes (b : Bytes) : Except IoError (List Route) :=
  if b = [] then .error invalidReply else readRoutesLoop b.length b []

/-- Whether an octet may be in a label of a domain: a letter, a digit or a hyphen. -/
def domainOctet (c : UInt8) : Bool :=
  (48 ≤ c && c ≤ 57) || (65 ≤ c && c ≤ 90) || (97 ≤ c && c ≤ 122) || c == 45

/-- Reference: `domain` (`ipv4/dhcp/wire.rs:260`). -/
def readDomain (b : Bytes) : Except IoError (List (List Bytes)) :=
  let b := if b.getLast? = some 46 then b.dropLast else b
  if b = [] ∨ b.length > 253 ∨
      (b.splitOn 46).any fun l => l == [] || l.length > 63 || l.any fun c => !domainOctet c then
    .error invalidReply
  else .ok [b.splitOn 46]

/-- Where the reading of a name is. -/
structure Walk where
  at_ : Nat
  consumed : Option Nat
  labels : List Bytes
  size : Nat
  cursor : Nat
  boundaries : List Nat

/-- The labels of a name, at most as many as the first argument. Reference: the inner loop of
`search` (`ipv4/dhcp/wire.rs:290`). -/
def readName (b : Bytes) : Nat → Walk → Except IoError Walk
  | 0, w => .ok w
  | fuel + 1, w =>
    match b[w.at_]? with
    | none => .error invalidReply
    | some n =>
      let boundaries := w.at_ :: w.boundaries
      if n = 0 then .ok { w with cursor := w.consumed.getD (w.at_ + 1), boundaries }
      else if n &&& 0xc0 = 0xc0 then
        match b[w.at_ + 1]? with
        | none => .error invalidReply
        | some low =>
          let ptr := (n &&& 63).toNat * 256 + low.toNat
          if ptr ≥ w.at_ ∨ boundaries.contains ptr = false then .error invalidReply
          else readName b fuel { w with
            at_ := ptr, consumed := some (w.consumed.getD (w.at_ + 2)), boundaries }
      else if n > 63 ∨ w.at_ + n.toNat + 1 > b.length ∨ w.size + n.toNat + 1 > 255 then
        .error invalidReply
      else readName b fuel { w with
        labels := w.labels ++ [(b.drop (w.at_ + 1)).take n.toNat]
        size := w.size + n.toNat + 1
        at_ := w.at_ + n.toNat + 1
        boundaries }

/-- The names of a search list, at most as many as the first argument. Reference: `search`
(`ipv4/dhcp/wire.rs:281`). -/
def readSearchLoop (b : Bytes) :
    Nat → Nat → List Nat → List (List Bytes) → Except IoError (List (List Bytes))
  | fuel, cursor, boundaries, out =>
    if cursor ≥ b.length then .ok out
    else
      match fuel with
      | 0 => .error invalidReply
      | fuel + 1 =>
        match readName b 128 ⟨cursor, none, [], 1, cursor, boundaries⟩ with
        | .error e => .error e
        | .ok w =>
          if w.cursor ≤ cursor ∨ w.labels = [] then .error invalidReply
          else readSearchLoop b fuel w.cursor w.boundaries (out ++ [w.labels])

/-- Reference: `search` (`ipv4/dhcp/wire.rs:274`). -/
def readSearch (b : Bytes) : Except IoError (List (List Bytes)) :=
  if b.length > 1024 then .error invalidReply else readSearchLoop b 16 0 [] []

/-- Reference: `Message` (`ipv4/dhcp/wire.rs:18`). -/
structure Message where
  kind : UInt8
  xid : Nat
  mac : Mac
  address : Ipv4Addr
  server : Ipv4Addr
  options : OrdMap UInt8 Bytes

namespace Message

/-- Whether the UDP checksum of a packet is right, if there is one. Reference: `Message::parse`
(`ipv4/dhcp/wire.rs:46`). -/
def sumOk (p : Packet) : Bool :=
  (p.payload.drop 6).take 2 == [0, 0] || checksum4 p.source p.destination 17 p.payload == 0

/-- The options in the fields that option 52 gives to them. Reference: `Message::parse`
(`ipv4/dhcp/wire.rs:69`). -/
def overload (b : Bytes) (options : OrdMap UInt8 Bytes) (budget : Nat) :
    Except IoError (OrdMap UInt8 Bytes) :=
  match options.get 52 with
  | none => .ok options
  | some o =>
    if o.length ≠ 1 ∨ octet o 0 < 1 ∨ octet o 0 > 3 then .error invalidReply
    else do
      let file ← if octet o 0 &&& 1 ≠ 0 then
        parseOptions ((b.drop 108).take 128) options budget true else .ok (options, budget)
      let name ← if octet o 0 &&& 2 ≠ 0 then
        parseOptions ((b.drop 44).take 64) file.1 file.2 true else .ok file
      .ok name.1

/-- The fields of a message. Reference: `Message::parse` (`ipv4/dhcp/wire.rs:81`). -/
def fields (b : Bytes) (options : OrdMap UInt8 Bytes) : Except IoError Message :=
  match options.get 53 with
  | some [kind] =>
    if kind ≠ 2 ∧ kind ≠ 5 ∧ kind ≠ 6 then .error invalidReply
    else
      match options.get 54 with
      | none => .error invalidReply
      | some server => do
        let server ← readIp server
        if unicast server = false then .error invalidReply
        else .ok ⟨kind, u32At b 4, octetsAt b 28 6, octetsAt b 16 4, server, options⟩
  | _ => .error invalidReply

/-- Reference: `Message::parse` (`ipv4/dhcp/wire.rs:27`). -/
def parse (bytes : Bytes) : Except IoError Message :=
  if bytes.length > optionBytes + 300 then .error invalidReply
  else do
    let p ← Packet.parse bytes
    if p.protocol ≠ 17 ∨ p.ttl = 0 ∨ p.fragmentOffset ≠ 0 ∨ p.moreFragments ∨
      p.payload.length < 248 ∨
        unicast p.source = false then .error invalidReply
    else if p.payload.take 4 ≠ [0, 67, 0, 68] ∨ u16At p.payload 4 ≠ p.payload.length then
      .error invalidReply
    else if sumOk p = false then .error invalidReply
    else
      let b := p.payload.drop 8
      if b.take 3 ≠ [2, 1, 6] ∨ (b.drop 236).take 4 ≠ [99, 130, 83, 99] ∨ octet b 28 &&& 1 ≠ 0 ∨
          (b.drop 28).take 6 = Mac.zero.1 ∨ octet b 10 &&& 0x7f ≠ 0 ∨ octet b 11 ≠ 0 then
        .error invalidReply
      else do
        let parsed ← parseOptions (b.drop 240) .empty 0 false
        let options ← overload b parsed.1 parsed.2
        fields b options

/-- Reference: `Message::number` (`ipv4/dhcp/wire.rs:101`). -/
def number (m : Message) (code : UInt8) : Except IoError (Option Nat) :=
  match m.options.get code with
  | none => .ok none
  | some b => if b.length = 4 then .ok (some (ofBe b)) else .error invalidReply

end Message

/-- How many of the first bits of a mask are one. -/
def leadingOnes (m : Nat) : Nat :=
  ((List.range 33).reverse.find? fun n => m / 2 ^ (32 - n) == 2 ^ n - 1).getD 0

/-- The length of a mask. Reference: `Message::lease` (`ipv4/dhcp/wire.rs:117`). -/
def maskLength (m : Nat) : Except IoError Nat :=
  if m = (2 ^ leadingOnes m - 1) * 2 ^ (32 - leadingOnes m) then .ok (leadingOnes m)
  else .error invalidReply

/-- Reference: `Ipv4Addr::is_link_local`. -/
def isLinkLocal (ip : Ipv4Addr) : Bool := octet ip.1 0 == 169 && octet ip.1 1 == 254

/-- A deadline some seconds from a moment on. Reference: `Message::lease`
(`ipv4/dhcp/wire.rs:165`). -/
def deadline (now seconds : Nat) : Nat := satAdd now (seconds * 1000)

/-- The result of a fallible function on the value of an option, if there is one. -/
def onOption {α : Type} (m : Message) (code : UInt8) (read : Bytes → Except IoError α)
    (otherwise : Except IoError α) : Except IoError α :=
  match m.options.get code with
  | some b => read b
  | none => otherwise

namespace Message

/-- The length of the prefix of a lease. Reference: `Message::lease` (`ipv4/dhcp/wire.rs:116`). -/
def leaseLength (m : Message) (prior : Option Lease) : Except IoError Nat :=
  onOption m 1 (fun b => do maskLength (ofBe (← readIp b).1)) <|
    match prior with
    | some l => .ok l.config.length
    | none => .error invalidReply

/-- The routes of a lease. Reference: `Message::lease` (`ipv4/dhcp/wire.rs:128`). -/
def leaseRoutes (m : Message) (prior : Option Lease) : Except IoError (List Route) :=
  onOption m 121 readRoutes <|
    onOption m 3 (fun b => do
      let gateways ← addresses 8 b
      .ok (gateways.head?.map fun g => ⟨unspecified, 0, g⟩).toList) <|
      .ok ((prior.map fun l => l.config.routes).getD [])

/-- The resolvers of a lease. Reference: `Message::lease` (`ipv4/dhcp/wire.rs:144`). -/
def leaseDns (m : Message) (prior : Option Lease) : Except IoError (List Ipv4Addr) :=
  onOption m 6 (addresses 8) (.ok ((prior.map fun l => l.config.dns).getD []))

/-- The domains of a lease. Reference: `Message::lease` (`ipv4/dhcp/wire.rs:149`). -/
def leaseSearch (m : Message) (prior : Option Lease) : Except IoError (List (List Bytes)) :=
  onOption m 119 readSearch <| onOption m 15 readDomain <|
    .ok ((prior.map fun l => l.config.search).getD [])

/-- When a lease is renewed and rebound, in seconds. Reference: `Message::lease`
(`ipv4/dhcp/wire.rs:156`). -/
def timers (seconds : Nat) (a b : Option Nat) : Nat × Nat :=
  let a := a.getD (seconds / 2)
  let b := b.getD (seconds * 7 / 8)
  if a > 0 ∧ a < b ∧ b < seconds then (a, b) else (seconds / 2, seconds * 7 / 8)

/-- Reference: `Message::lease` (`ipv4/dhcp/wire.rs:111`). -/
def lease (m : Message) (now : Nat) (prior : Option Lease) : Except IoError Lease := do
  match ← m.number 51 with
  | none => .error invalidReply
  | some seconds =>
    if seconds = 0 ∨ unicast m.address = false ∨ isLinkLocal m.address then .error invalidReply
    else do
      let length ← m.leaseLength prior
      let v := Ipv4.default.configure m.address length none
      v.1
      let routes ← m.leaseRoutes prior
      (v.2.setRoutes routes).1
      let dns ← m.leaseDns prior
      let search ← m.leaseSearch prior
      let a ← m.number 58
      let b ← m.number 59
      let (a, b) := timers seconds a b
      .ok ⟨⟨m.address, length, routes, dns, search⟩, m.server, deadline now a, deadline now b,
        if seconds = 2 ^ 32 - 1 then u64Max else deadline now seconds⟩

end Message

/-! ## Leases -/

/-- A configuration that the host takes. -/
structure Configuration.Fit (c : Configuration) : Prop where
  address : unicast c.address = true
  length : c.length ≤ 32
  host : hostAddress c.address c.length = true
  count : c.routes.length ≤ 64
  routes : c.routes.any (refusesRoute c.address c.length) = false

/-- What holds of every lease. -/
structure Lease.Sound (l : Lease) : Prop where
  fit : l.config.Fit
  foreign : isLinkLocal l.config.address = false
  server : unicast l.server = true
  order : l.t1 ≤ l.t2 ∧ l.t2 ≤ l.expires

variable {m : Message} {now : Nat} {prior : Option Lease} {l : Lease}

/-- What it takes for an address to be set. -/
theorem configure_ok {h : Ipv4} {address : Ipv4Addr} {length : Nat} {gateway : Option Ipv4Addr}
    (hok : (h.configure address length gateway).1 = .ok ()) : length ≤ 32 ∧ unicast address = true ∧
      hostAddress address length = true ∧ (h.configure address length gateway).2.address =
      some (address, length) := by
  unfold Ipv4.configure at hok ⊢
  split at hok
  · cases hok
  · next hall =>
    rw [if_neg hall]
    simp only [not_or, Bool.not_eq_false, Nat.not_lt] at hall
    exact ⟨hall.1, hall.2.1, hall.2.2.1, rfl⟩

/-- What it takes for routes to be set. -/
theorem setRoutes_ok {h : Ipv4} {address : Ipv4Addr} {length : Nat} {routes : List Route}
    (haddr : h.address = some (address, length)) (hok : (h.setRoutes routes).1 = .ok ()) :
    routes.length ≤ 64 ∧ routes.any (refusesRoute address length) = false := by
  unfold Ipv4.setRoutes at hok
  rw [haddr] at hok
  dsimp only at hok
  split at hok
  · cases hok
  · next hall =>
    simp only [not_or, Bool.not_eq_true, Nat.not_lt] at hall
    exact hall

/-- The times of a lease are in order: it is renewed before it is rebound, and rebound before it
expires. -/
theorem timers_le (seconds : Nat) (a b : Option Nat) :
    (Message.timers seconds a b).1 ≤ (Message.timers seconds a b).2 ∧
      (Message.timers seconds a b).2 ≤ seconds := by
  unfold Message.timers
  dsimp only
  split
  · next h => exact ⟨Nat.le_of_lt h.2.1, Nat.le_of_lt h.2.2⟩
  · dsimp only
    omega

/-- Deadlines are in the order of the seconds they are made of. -/
theorem deadline_mono {a b : Nat} (h : a ≤ b) : deadline now a ≤ deadline now b :=
  satAdd_mono (Nat.mul_le_mul_right 1000 h)

/-- What a lease is made of: the address and the server of the message, and options that pass the
checks. The checks of `Message::lease` come one after the other, and each gives one of the
clauses. -/
theorem Message.lease_sound (hserver : unicast m.server = true) (h : m.lease now prior = .ok l) :
    l.Sound ∧ l.config.address = m.address ∧ l.server = m.server ∧
    (now < u64Max → now < l.expires) := by
  unfold Message.lease at h
  obtain ⟨seconds, -, h⟩ := exceptBind_ok h
  cases seconds with
  | none => cases h
  | some seconds =>
    dsimp only at h
    split at h
    · cases h
    · next hok =>
      simp only [not_or, Bool.not_eq_false, Bool.not_eq_true] at hok
      obtain ⟨hpos, huni, hforeign⟩ := hok
      obtain ⟨length, -, h⟩ := exceptBind_ok h
      obtain ⟨⟨⟩, hconfigure, h⟩ := exceptBind_ok h
      obtain ⟨routes, -, h⟩ := exceptBind_ok h
      obtain ⟨⟨⟩, hroutes, h⟩ := exceptBind_ok h
      obtain ⟨dns, -, h⟩ := exceptBind_ok h
      obtain ⟨search, -, h⟩ := exceptBind_ok h
      obtain ⟨a, -, h⟩ := exceptBind_ok h
      obtain ⟨b, -, h⟩ := exceptBind_ok h
      obtain ⟨hlength, -, hhost, haddr⟩ := configure_ok hconfigure
      obtain ⟨hcount, hfit⟩ := setRoutes_ok haddr hroutes
      obtain ⟨htimers, hlast⟩ := timers_le seconds a b
      cases h
      refine ⟨⟨⟨huni, hlength, hhost, hcount, hfit⟩, hforeign, hserver, deadline_mono htimers, ?_⟩,
        rfl, rfl, ?_⟩
      · dsimp only
        split
        · exact satAdd_le_max _ _
        · exact deadline_mono hlast
      · intro hclock
        dsimp only
        split
        · exact hclock
        · show now < min (now + seconds * 1000) u64Max
          omega

/-- The server of a message is a host. It is the last field that is tested before the message is
returned. -/
theorem Message.fields_server {b : Bytes} {options : OrdMap UInt8 Bytes}
    (h : fields b options = .ok m) :
    unicast m.server = true := by
  unfold fields at h
  split at h
  · split at h
    · cases h
    · split at h
      · cases h
      · obtain ⟨server, -, h⟩ := exceptBind_ok h
        split at h
        · cases h
        · next huni =>
          cases h
          simpa using huni
  · cases h

/-- A message that is read names a host as its server, since every way to a message goes through
`fields`. -/
theorem Message.parse_server {b : Bytes} (h : Message.parse b = .ok m) :
    unicast m.server = true := by
  unfold Message.parse at h
  split at h
  · cases h
  · obtain ⟨p, -, h⟩ := exceptBind_ok h
    split at h
    · cases h
    · split at h
      · cases h
      · split at h
        · cases h
        · dsimp only at h
          split at h
          · cases h
          · obtain ⟨parsed, -, h⟩ := exceptBind_ok h
            obtain ⟨options, -, h⟩ := exceptBind_ok h
            exact fields_server h

/-- The host takes a configuration that fits, whatever it was before. -/
theorem Configuration.Fit.configure {c : Configuration} (hc : c.Fit) (h : Ipv4) :
    (h.configure c.address c.length none).1 = .ok () := by
  unfold Ipv4.configure
  rw [if_neg]
  rintro (h1 | h1 | h1 | h1)
  · exact Nat.not_lt.2 hc.length h1
  · rw [hc.address] at h1
    cases h1
  · rw [hc.host] at h1
    cases h1
  · cases h1

/-- The routes of a configuration that fits are accepted. -/
theorem Configuration.Fit.setRoutes {c : Configuration} (hc : c.Fit) {h : Ipv4}
    (haddr : h.address = some (c.address, c.length)) : (h.setRoutes c.routes).1 = .ok () := by
  unfold Ipv4.setRoutes
  rw [haddr]
  dsimp only
  rw [if_neg]
  rintro (h1 | h1)
  · exact Nat.not_lt.2 hc.count h1
  · rw [hc.routes] at h1
    cases h1

/-- The host takes the address of a configuration that fits. -/
theorem Configuration.Fit.configure_eq {c : Configuration} (hc : c.Fit) (h : Ipv4) :
    h.configure c.address c.length none = (.ok (), { h with
      address := some (c.address, c.length), gateway :=
  none, neighbors := .empty, routes := [], input := [] }) := by
  have hok := hc.configure h
  unfold Ipv4.configure at hok ⊢
  split at hok
  · cases hok
  · next hfits => rw [if_neg hfits]

/-- The host takes the routes of a configuration that fits. -/
theorem Configuration.Fit.setRoutes_eq {c : Configuration} (hc : c.Fit) {h : Ipv4}
    (haddr : h.address = some (c.address, c.length)) :
    h.setRoutes c.routes = (.ok (), { h with routes := c.routes, neighbors := .empty }) := by
  have hok := hc.setRoutes haddr
  unfold Ipv4.setRoutes at hok ⊢
  rw [haddr] at hok ⊢
  dsimp only at hok ⊢
  split at hok
  · cases hok
  · next hfits => rw [if_neg hfits]

end SnacMachine.Ipv4
