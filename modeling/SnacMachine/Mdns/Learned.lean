import SnacMachine.Mdns.Cache
import SnacMachine.Mdns.Options
import SnacMachine.Net.Address

/-!
# What a question finds

The learned records of a link as `mdns/cache.rs` keeps them, by owner, type and class: how the
records of a message get there (`Cache.receive`), and what a question finds among them
(`Cache.answers`).
-/

namespace SnacMachine.Mdns

open Dns

/-- A learned record: when it came and when its lifetime ends, what it is charged for, its stamp,
the times at which it is asked for again, and the first unanswered question for it, the last one and
their number. Reference: `Entry` (`mdns/cache.rs:14`). -/
structure Cache.Entry where
  record : Record
  received : Nat
  expires : Nat
  charge : Nat
  stamp : Option Stamp
  refresh : List Nat
  refreshed : Nat
  failure : Option (Nat × Nat × UInt8)

/-- Reference: `Entry::deadline` (`mdns/cache.rs:26`). -/
def Cache.Entry.deadline (e : Cache.Entry) : Nat :=
  match e.failure.filter fun f => 2 ≤ f.2.2 with
  | none => e.expires
  | some f => min e.expires (satAdd f.1 10000)

/-- Reference: `Set` (`mdns/cache.rs:33`). -/
structure Cache.Set where
  records : List Cache.Entry
  used : Nat

/-- Reference: `Cache` (`mdns/cache.rs:38`). -/
structure Cache where
  sets : OrdMap (Name × UInt16 × UInt16) Cache.Set
  bytes : Nat
  reserved : Nat

namespace Cache

/-- Reference: `Cache::default` (`mdns/cache.rs:37`). -/
def new : Cache := ⟨.empty, 0, 0⟩

/-- All records. -/
def entries (c : Cache) : List Entry := c.sets.values.flatMap fun s => s.records

/-- What the records of a set are charged for. -/
def Set.charge (s : Set) : Nat := (s.records.map fun e => e.charge).sum

/-- Reference: `key` (`mdns/cache.rs:43`). -/
def key (r : Record) : Name × UInt16 × UInt16 := (r.name, r.kind, r.cls &&& 0x7fff)

/-! ## Receiving -/

/-- Reference: `Cache::expire` (`mdns/cache.rs:91`). -/
def expire (c : Cache) (now : Nat) : Cache :=
  { c with
    sets := (c.sets.mapValues fun _ s =>
      { s with records := s.records.filter fun e => decide (e.deadline > now) }).retain
        fun _ s => !s.records.isEmpty
    bytes := c.bytes -
      ((c.entries.filter fun e => decide (e.deadline ≤ now)).map fun e => e.charge).sum }

/-- Reference: `Cache::owner_stamp` (`mdns/cache.rs:254`). -/
def ownerStamp (c : Cache) (name : Name) (now : Nat) : Option (Option Stamp) :=
  (c.entries.find? fun e => e.record.name == name && decide (e.deadline > now)).map fun e => e.stamp

/-- Reference: `Cache::remove_owner` (`mdns/cache.rs:261`). -/
def removeOwner (c : Cache) (name : Name) : Cache :=
  { c with
    sets := c.sets.retain fun k _ => !(k.1 == name)
    bytes := c.bytes -
      ((c.sets.entries.filter fun e => e.1.1 == name).map fun e => e.2.charge).sum }

/-- The variables of the first loop of `receive_with_code`. -/
structure Selection where
  cache : Cache
  selected : OrdMap Name (Option Stamp)
  ignored : OrdMap Name Unit

/-- Decides about the owner of a record by its stamps. Reference: `mdns/cache.rs:130`. -/
def Selection.owner (m : Message) (stamps : OrdMap Name Stamp) (now : Nat) (s : Selection)
    (e : Record × Nat) : Selection :=
  if !cacheable e.1 || (m.flags &&& 0x8000 == 0 && decide (e.2 < m.answers.length)) ||
      s.selected.contains e.1.name || s.ignored.contains e.1.name then s
  else
    let remote := stamps.get e.1.name
    match s.cache.ownerStamp e.1.name now with
    | none => { s with selected := s.selected.insert e.1.name remote }
    | some mine => match compare mine remote with
      | .older => { s with ignored := s.ignored.insert e.1.name () }
      | .newer | .conflict => { s with
          cache := s.cache.removeOwner e.1.name
          selected := s.selected.insert e.1.name remote }
      | .equal =>
        let chosen := match mine, remote with
          | some a, some b => some { b with receivedAt := min a.receivedAt b.receivedAt }
          | _, _ => remote
        { s with selected := s.selected.insert e.1.name chosen }
      | .unstamped => { s with selected := s.selected.insert e.1.name remote }

/-- The first of the sets used longest ago. -/
def oldest : List ((Name × UInt16 × UInt16) × Set) → Option ((Name × UInt16 × UInt16) × Set)
  | [] => none
  | e :: es => match oldest es with
    | none => some e
    | some e' => some (if e'.2.used < e.2.used then e' else e)

/-- Removes the sets used longest ago while the cache is `full`; every round removes a set. -/
def shed (full : Cache → Prop) [DecidablePred full] : (fuel : Nat) → Cache → Cache
  | 0, c => c
  | fuel + 1, c =>
    if full c then
      match oldest c.sets.entries with
      | none => c
      | some e => shed full fuel { c with sets := c.sets.remove e.1, bytes := c.bytes - e.2.charge }
    else c

/-- Makes room for a record. Reference: `mdns/cache.rs:215`. -/
def evict (k : Name × UInt16 × UInt16) (cost fuel : Nat) (c : Cache) : Cache :=
  shed (fun c => c.bytes + c.reserved + cost > 4194304 ∨
    c.sets.contains k = false ∧ c.sets.size = 1024) fuel c

/-- Ends the lifetime of a record soon. -/
def Entry.endSoon (now : Nat) (e : Entry) : Entry :=
  { e with expires := min e.expires (satAdd now 1000) }

/-- Changes the first record that is the same as another. -/
def renew (r : Record) (f : Entry → Entry) : List Entry → List Entry
  | [] => []
  | e :: es => if same e.record r then f e :: es else e :: renew r f es

/-- One record with its lifetime, its cost and the times to ask for it again. Reference:
`mdns/cache.rs:183`. -/
def store (c : Cache) (now : Nat) (stamp : Option Stamp) (r : Record) (cost : Nat)
    (refresh : List Nat) : Cache :=
  let k := key r
  let ttl := min r.ttl 0x7fffffff
  let expires := satAdd now (ttl.toNat * 1000)
  let sets := if r.cls &&& 0x8000 ≠ 0 then
      c.sets.modify k fun s => { s with
        records := s.records.map fun e => if now - e.received > 1000 then e.endSoon now else e }
    else c.sets
  if (match sets.get k with
      | some s => s.records.any fun e => same e.record r
      | none => false) = true then
    { c with sets := sets.modify k fun s => {
      records := renew r (fun e => { e with
        record := { e.record with ttl, cls := r.cls }
        received := now, expires, stamp, refresh, refreshed := 0, failure := none }) s.records
      used := now } }
  else
    let c := evict k cost c.sets.size { c with sets }
    let records := (c.sets.get k).elim [] fun s => s.records
    { c with
      sets := c.sets.insert k
        ⟨records ++ [⟨{ r with ttl }, now, expires, cost, stamp, refresh, 0, none⟩], now⟩
      bytes := c.bytes + cost }

/-- The second loop of `receive_with_code` (`mdns/cache.rs:166`), after `n` samples. -/
def storeAll (m : Message) (s : Selection) (now : Nat) (rng : Random) :
    List (Record × Nat) → (n : Nat) → Cache → Except IoError Unit × Cache
  | [], _, c => (.ok (), c)
  | (r, index) :: rs, n, c =>
    if !cacheable r || s.ignored.contains r.name ||
        (m.flags &&& 0x8000 == 0 && decide (index < m.answers.length + m.authority.length)) then
      storeAll m s now rng rs n c
    else if r.ttl = 0 then
      storeAll m s now rng rs n { c with sets := c.sets.modify (key r) fun set => { set with
        records := set.records.map fun e => if same e.record r then e.endSoon now else e } }
    else match (charge r).filter fun n => decide (n ≤ 4194304) with
      | none => storeAll m s now rng rs n c
      | some cost =>
        let lifetime := (min r.ttl 0x7fffffff).toNat * 1000
        match rng.sample n (lifetime / 50) with
        | .error e => (.error e, c)
        | .ok jitter =>
          let refresh := ([80, 85, 90, 95] : List Nat).map fun p =>
            satAdd (satAdd now (lifetime * p / 100)) jitter
          storeAll m s now rng rs (n + 1)
            (c.store now ((s.selected.get r.name).join) r cost refresh)

/-- Learns the records of a message. Reference: `Cache::receive_with_code` (`mdns/cache.rs:114`). -/
def receive (c : Cache) (m : Message) (code : UInt16) (now : Nat) (rng : Random) :
    Except IoError Unit × Cache :=
  if m.records.length > 512 then (.error ⟨.invalidData, "mDNS record work limit"⟩, c)
  else
    let c := c.expire now
    match extract m code now with
    | .error e => (.error e, c)
    | .ok stamps =>
      let s := m.records.zipIdx.foldl (Selection.owner m stamps now) ⟨c, .empty, .empty⟩
      storeAll m s now rng m.records.zipIdx 0 s.cache

/-- A cache that learned the records of some messages. -/
inductive Reached : Cache → Prop
  | new : Reached new
  | receive {c : Cache} (m : Message) (code : UInt16) (now : Nat) (rng : Random) :
      Reached c → Reached (c.receive m code now rng).2

/-! ## Asking -/

/-- What reading marks: the sets that hold a record of use are used now. -/
def touch (c : Cache) (p : Entry → Bool) (now : Nat) : Cache :=
  { c with sets := c.sets.mapValues fun _ s =>
      if s.records.any p then { s with used := now } else s }

/-- The records that `Cache::answers` (`mdns/cache.rs:271`) returns; what it marks is `touch`. -/
def answers (c : Cache) (q : Question) (now : Nat) : List Record :=
  (c.entries.filter fun e => decide (e.deadline > now) && matches_ q e.record).map fun e =>
    { e.record with
      cls := e.record.cls &&& 0x7fff
      ttl := UInt32.ofNat (min ((e.deadline - now + 999) / 1000) 4294967295) }

/-- Whether an NSEC record says that there is no answer. Reference: `Cache::negative`
(`mdns/cache.rs:290`). -/
def negative (c : Cache) (q : Question) (now : Nat) : Bool :=
  q.kind != 255 && c.entries.any fun e =>
    decide (e.deadline > now) && e.record.name == q.name &&
      e.record.cls &&& 0x7fff == q.cls &&& 0x7fff &&
      match e.record.data with
      | .nsec _ bitmap => !bitmapHas bitmap q.kind && !bitmapHas bitmap 5
      | _ => false

/-- Whether a record answers a question or says that nothing does. Reference: `interested`
(`mdns/cache.rs:416`). -/
def interested (q : Question) (r : Record) : Bool :=
  matches_ q r || (r.kind == 47 && r.name == q.name && r.cls &&& 0x7fff == q.cls &&& 0x7fff)

/-- Half the lifetime of a record, rounded up. -/
def halfTtl (r : Record) : Nat := (r.ttl.toNat + 1) / 2

/-- Whether a record is a known answer, with at least half of its lifetime to go. Reference:
`mdns/cache.rs:355`. -/
def isKnown (q : Question) (now : Nat) (e : Entry) : Bool :=
  interested q e.record && decide (halfTtl e.record ≤ (e.deadline - now) / 1000) &&
    decide (0 < (e.deadline - now) / 1000)

/-! ## Upkeep -/

/-- Rewrites every record in place. -/
def mapRecords (c : Cache) (f : Entry → Entry) : Cache :=
  { c with sets := c.sets.mapValues fun _ s => { s with records := s.records.map f } }

/-- Reference: `Cache::clear` (`mdns/cache.rs:80`). -/
def clear (c : Cache) : Cache := { c with sets := .empty, bytes := 0 }

/-- The loop of `reserve`. Reference: `mdns/cache.rs:309`. -/
def shrink (fuel : Nat) (c : Cache) : Cache :=
  shed (fun c => c.bytes + c.reserved > 4194304) fuel c

/-- Reference: `Cache::reserve` (`mdns/cache.rs:307`). -/
def reserve (c : Cache) (bytes : Nat) : Cache := shrink c.sets.size { c with reserved := bytes }

/-- A record that was asked for again at all times up to now. Reference: `mdns/cache.rs:345`. -/
def Entry.pass (now : Nat) (e : Entry) : Entry :=
  { e with refreshed :=
      e.refreshed + ((e.refresh.drop e.refreshed).takeWhile fun t => decide (t ≤ now)).length }

/-- Reference: `Cache::refreshed` (`mdns/cache.rs:342`). -/
def refreshed (c : Cache) (q : Question) (now : Nat) : Cache :=
  c.mapRecords fun e => if interested q e.record then e.pass now else e

/-- Reference: `Cache::suspect` (`mdns/cache.rs:370`). -/
def suspect (c : Cache) (q : Question) (now : Nat) : Cache :=
  c.mapRecords fun e =>
    if interested q e.record then { e with expires := min e.expires (satAdd now 10000) } else e

/-- A record for which a question was seen. Reference: `mdns/cache.rs:390`. -/
def Entry.questioned (now : Nat) (e : Entry) : Entry :=
  match e.failure with
  | none => { e with failure := some (now, now, 1) }
  | some f =>
    if now - f.2.1 ≥ 1000 then
      { e with failure := some (f.1, now, if f.2.2 = 255 then 255 else f.2.2 + 1) }
    else e

/-- Notes a peer's question, whose answers the records it knows are not. Reference:
`Cache::observe_question` (`mdns/cache.rs:377`). -/
def observeQuestion (c : Cache) (q : Question) (known : List Record) (now : Nat) : Cache :=
  if q.cls &&& 0x8000 ≠ 0 then c
  else c.mapRecords fun e =>
    if decide (e.deadline ≤ now) || !matches_ q e.record ||
        known.any fun r => same r e.record && decide (halfTtl e.record ≤ r.ttl.toNat) then e
    else e.questioned now

end Cache

end SnacMachine.Mdns
