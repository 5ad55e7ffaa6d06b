import SnacMachine.Dns.Name
import SnacMachine.Net.Address

/-!
# DNS messages: the parser and the encoder

The embedding of `dns/wire.rs`. The parser reads a message at an offset and threads the label
boundaries seen so far (`Parser.known`, the only legal pointer targets) and the work budget of the
whole message; the encoder's writers take the length of the output written so far, which is all the
program reads of it, and return the octets they append. Every failure of the program is the one
`invalid()` error, here `none`.
-/

namespace SnacMachine.Dns

/-- Largest message. Reference: `dns/wire.rs:9`. -/
def maxWire : Nat := 65535
/-- Most questions and records in one message. Reference: `dns/wire.rs:10`. -/
def maxRecords : Nat := 4096
/-- Most label steps in one message. Reference: `dns/wire.rs:11`. -/
def maxWork : Nat := 262144
/-- Reference: `invalid` (`dns/wire.rs:12`). -/
def wireInvalid : IoError := ⟨.invalidData, "invalid or excessive DNS message"⟩

/-- The transport a message is parsed or encoded for. Reference: `dns/wire.rs:93`. -/
inductive Context
  | unicast
  | mdns
  deriving DecidableEq

/-- Reference: `Question` (`dns/wire.rs:98`); `cls` is its field `class`. -/
structure Question where
  name : Name
  kind : UInt16
  cls : UInt16
  deriving BEq

/-- Record data. Reference: `Rdata` (`dns/wire.rs:104`). -/
inductive Rdata
  | empty
  | a (address : Octets 4)
  | aaaa (address : Octets 16)
  | name (name : Name)
  | srv (priority weight port : UInt16) (target : Name)
  | txt (strings : List Bytes)
  | preference (preference : UInt16) (name : Name)
  | twoNames (first second : Name)
  | px (preference : UInt16) (map822 mapx400 : Name)
  | soa (mname rname : Name) (serial refresh retry expire minimum : UInt32)
  | key (flags : UInt16) (protocol algorithm : UInt8) (key : Bytes)
  | sig (covered : UInt16) (algorithm labels : UInt8) (originalTtl expiration inception : UInt32)
      (keyTag : UInt16) (signer : Name) (signature : Bytes)
  | opt (options : List (UInt16 × Bytes))
  | nsec (next : Name) (bitmap : Bytes)
  | svcb (priority : UInt16) (target : Name) (params : List (UInt16 × Bytes))
  | bytes (bytes : Bytes)
  | opaque_ (bytes : Bytes)
  deriving BEq

/-- Reference: `Record` (`dns/wire.rs:166`); `cls` is its field `class`. -/
structure Record where
  name : Name
  kind : UInt16
  cls : UInt16
  ttl : UInt32
  data : Rdata
  deriving BEq

/-- Where a record lies in the message it was parsed from. Reference: `RecordSpan`
(`dns/wire.rs:174`). -/
structure RecordSpan where
  wireStart : Nat
  wireEnd : Nat
  ttl : Nat
  rdataStart : Nat
  rdataEnd : Nat
  deriving DecidableEq

/-- Reference: `Message` (`dns/wire.rs:180`). -/
structure Message where
  id : UInt16
  flags : UInt16
  questions : List Question
  answers : List Record
  authority : List Record
  additional : List Record
  original : Bytes
  spans : List RecordSpan

/-- Reference: `Message::new` (`dns/wire.rs:191`). -/
def Message.new (id flags : UInt16) : Message := ⟨id, flags, [], [], [], [], [], []⟩

/-- The records of all sections, in message order. -/
def Message.records (m : Message) : List Record := m.answers ++ m.authority ++ m.additional

/-! ## The parser -/

/-- `n` octets at an offset, and the offset after them. Reference: `Parser::take`
(`dns/wire.rs:415`). -/
def take (b : Bytes) (pos stop n : Nat) : Option (Bytes × Nat) :=
  if pos + n ≤ stop ∧ pos + n ≤ b.length then some ((b.drop pos).take n, pos + n) else none

/-- One octet at an offset. -/
def takeByte (b : Bytes) (pos stop : Nat) : Option (UInt8 × Nat) :=
  (take b pos stop 1).map fun x => (x.1.headD 0, x.2)

/-- Reference: `Parser::u16` (`dns/wire.rs:424`). -/
def u16 (b : Bytes) (pos stop : Nat) : Option (UInt16 × Nat) :=
  (take b pos stop 2).map fun x => (UInt16.ofNat (ofBe x.1), x.2)

/-- Reference: `Parser::u32` (`dns/wire.rs:429`). -/
def u32 (b : Bytes) (pos stop : Nat) : Option (UInt32 × Nat) :=
  (take b pos stop 4).map fun x => (UInt32.ofNat (ofBe x.1), x.2)

/-- The parser's state over one message: the label boundaries read so far and what is left of the
work budget. Reference: `Parser` (`dns/wire.rs:404`), whose `work` counts up to `MAX_WORK`. -/
structure Parser where
  known : List Nat
  budget : Nat

/-- What one run of the name loop returns: the labels, the label boundaries it went through, the
offset after the name in the message, and the remaining budget. -/
structure NameRun where
  labels : List Bytes
  positions : List Nat
  pos : Nat
  budget : Nat

/-- The loop of `Parser::name` (`dns/wire.rs:442`), by recursion on the work budget. `length` and
`hops` are its accumulators; a pointer resumes at its target with the whole message as limit, and
the name ends, for the caller, after the first pointer. -/
def nameLoop (b : Bytes) (compressed : Bool) (known : List Nat) :
    (budget pos limit length hops : Nat) → Option NameRun
  | 0, _, _, _, _ => none
  | budget + 1, pos, limit, length, hops => do
    let (c, next) ← takeByte b pos limit
    if c = 0 then
      some ⟨[], [pos], next, budget⟩
    else if c ≤ 63 then do
      let (l, next) ← take b next limit c.toNat
      if length + 1 + l.length > 255 then none
      let r ← nameLoop b compressed known budget next limit (length + 1 + l.length) hops
      some { r with labels := l :: r.labels, positions := pos :: r.positions }
    else if 192 ≤ c ∧ compressed = true then do
      let (low, next) ← takeByte b next limit
      let target := (c.toNat - 192) * 256 + low.toNat
      if hops + 1 > 64 ∨ target ≥ pos ∨ target ∉ known then none
      let r ← nameLoop b compressed known budget target b.length length (hops + 1)
      some { r with positions := pos :: r.positions, pos := next }
    else none

/-- Reference: `Parser::name` (`dns/wire.rs:434`). -/
def Parser.name (p : Parser) (b : Bytes) (pos stop : Nat) (compressed : Bool) :
    Option (Name × Nat × Parser) := do
  let r ← nameLoop b compressed p.known p.budget pos stop 1 0
  let n ← Name.fromLabels r.labels
  some (n, r.pos, ⟨r.positions ++ p.known, r.budget⟩)

/-- The strings of a TXT record; `fuel` is the number of octets left. Reference:
`dns/wire.rs:505`. -/
def txtLoop (b : Bytes) (stop : Nat) : (fuel pos : Nat) → Option (List Bytes × Nat)
  | 0, pos => if pos < stop then none else some ([], pos)
  | fuel + 1, pos =>
    if pos < stop then do
      let (n, pos) ← takeByte b pos stop
      let (s, pos) ← take b pos stop n.toNat
      let (v, pos) ← txtLoop b stop fuel pos
      some (s :: v, pos)
    else some ([], pos)

/-- The options of an OPT or SVCB record; `fuel` is the number of octets left. Reference:
`Parser::options` (`dns/wire.rs:622`). -/
def optionsLoop (b : Bytes) (stop : Nat) (ordered : Bool) :
    (fuel pos : Nat) → Option UInt16 → Option (List (UInt16 × Bytes) × Nat)
  | 0, pos, _ => if pos < stop then none else some ([], pos)
  | fuel + 1, pos, prev =>
    if pos < stop then do
      let (key, pos) ← u16 b pos stop
      let (n, pos) ← u16 b pos stop
      if ordered = true ∧ prev.any (fun p => key ≤ p) = true then none
      let (data, pos) ← take b pos stop n.toNat
      let (v, pos) ← optionsLoop b stop ordered fuel pos (some key)
      some ((key, data) :: v, pos)
    else some ([], pos)

/-- The window blocks of a type bitmap; `fuel` is the number of octets left. Reference:
`bitmap_valid` (`dns/wire.rs:645`). -/
def bitmapLoop : (fuel : Nat) → Option UInt8 → Bytes → Bool
  | _, _, [] => true
  | 0, _, _ :: _ => false
  | _ + 1, _, [_] => false
  | fuel + 1, prev, w :: n :: rest =>
    if n = 0 ∨ n > 32 ∨ prev.any (fun p => w ≤ p) = true ∨ rest.length < n.toNat then false
    else if (rest.take n.toNat).getLast? = some 0 then false
    else bitmapLoop fuel (some w) (rest.drop n.toNat)

/-- Reference: `bitmap_valid` (`dns/wire.rs:645`). -/
def bitmapValid (b : Bytes) : Bool := bitmapLoop b.length none b

/-- The mandatory keys of a SVCB parameter: increasing and present. Reference: `dns/wire.rs:667`. -/
def mandatoryValid (params : List (UInt16 × Bytes)) : UInt16 → Bytes → Bool
  | prev, x :: y :: rest =>
    let k := UInt16.ofNat (ofBe [x, y])
    decide (prev < k) && params.any (fun p => p.1 == k) && mandatoryValid params k rest
  | _, _ => true

/-- The protocol identifiers of a SVCB parameter; `fuel` is the number of octets left. Reference:
`dns/wire.rs:678`. -/
def alpnValid : (fuel : Nat) → Bytes → Bool
  | _, [] => true
  | 0, _ :: _ => false
  | fuel + 1, n :: rest =>
    n != 0 && decide (n.toNat ≤ rest.length) && alpnValid fuel (rest.drop n.toNat)

/-- One SVCB parameter, among all of them. Reference: `svcb_valid` (`dns/wire.rs:663`). -/
def svcbParamValid (params : List (UInt16 × Bytes)) (key : UInt16) (b : Bytes) : Bool :=
  if key = 0 then !b.isEmpty && b.length % 2 == 0 && mandatoryValid params 0 b
  else if key = 1 then !b.isEmpty && alpnValid b.length b
  else if key = 2 then b.isEmpty && params.any fun p => p.1 == 1
  else if key = 3 then b.length == 2
  else if key = 4 then !b.isEmpty && b.length % 4 == 0
  else if key = 6 then !b.isEmpty && b.length % 16 == 0
  else true

/-- Reference: `svcb_valid` (`dns/wire.rs:663`). -/
def svcbValid (params : List (UInt16 × Bytes)) : Bool :=
  params.all fun p => svcbParamValid params p.1 p.2

/-- The record data shapes that `Parser::rdata` distinguishes. -/
inductive Form
  | a | aaaa | name | srv | txt | soa | preference | twoNames | px | key | sig | opt | nsec | svcb
  | digest | nsec3 | unknown
  deriving DecidableEq

/-- The shape of a record type's data: the patterns of the `match` of `Parser::rdata`
(`dns/wire.rs:495`). -/
def form (kind : UInt16) : Form :=
  if kind = 1 then .a
  else if kind = 28 then .aaaa
  else if kind ∈ [2, 5, 12, 39] then .name
  else if kind = 33 then .srv
  else if kind = 16 then .txt
  else if kind = 6 then .soa
  else if kind ∈ [15, 18, 21, 36] then .preference
  else if kind ∈ [14, 17] then .twoNames
  else if kind = 26 then .px
  else if kind ∈ [25, 48, 60] then .key
  else if kind ∈ [24, 46] then .sig
  else if kind = 41 then .opt
  else if kind = 47 then .nsec
  else if kind ∈ [64, 65] then .svcb
  else if kind ∈ [43, 59] then .digest
  else if kind ∈ [50, 51] then .nsec3
  else .unknown

/-- The digest length that a DS record's digest type asks for. Reference: `dns/wire.rs:589`. -/
def digestSize (digest : UInt8) : Option Nat :=
  if digest = 1 then some 20
  else if digest = 2 then some 32 else if digest = 4 then some 48 else none

/-- Reference: `Parser::rdata` (`dns/wire.rs:485`). -/
def Parser.rdata (p : Parser) (b : Bytes) (kind : UInt16) (pos stop : Nat)
    (srvCompressed mdns : Bool) : Option (Rdata × Nat × Parser) :=
  let n := stop - pos
  match form kind with
  | .a => do
    if n ≠ 4 then none
    let (x, pos) ← take b pos stop 4
    if h : x.length = 4 then some (.a ⟨x, h⟩, pos, p) else none
  | .aaaa => do
    if n ≠ 16 then none
    let (x, pos) ← take b pos stop 16
    if h : x.length = 16 then some (.aaaa ⟨x, h⟩, pos, p) else none
  | .name => do
    let (name, pos, p) ← p.name b pos stop (kind != 39 || mdns)
    some (.name name, pos, p)
  | .srv => do
    let (priority, pos) ← u16 b pos stop
    let (weight, pos) ← u16 b pos stop
    let (port, pos) ← u16 b pos stop
    let (target, pos, p) ← p.name b pos stop srvCompressed
    some (.srv priority weight port target, pos, p)
  | .txt => do
    let (v, pos) ← txtLoop b stop n pos
    if v.isEmpty then none
    some (.txt v, pos, p)
  | .soa => do
    let (mname, pos, p) ← p.name b pos stop true
    let (rname, pos, p) ← p.name b pos stop true
    let (serial, pos) ← u32 b pos stop
    let (refresh, pos) ← u32 b pos stop
    let (retry, pos) ← u32 b pos stop
    let (expire, pos) ← u32 b pos stop
    let (minimum, pos) ← u32 b pos stop
    some (.soa mname rname serial refresh retry expire minimum, pos, p)
  | .preference => do
    let (preference, pos) ← u16 b pos stop
    let (name, pos, p) ← p.name b pos stop (kind != 36 || mdns)
    some (.preference preference name, pos, p)
  | .twoNames => do
    let (first, pos, p) ← p.name b pos stop true
    let (second, pos, p) ← p.name b pos stop true
    some (.twoNames first second, pos, p)
  | .px => do
    let (preference, pos) ← u16 b pos stop
    let (map822, pos, p) ← p.name b pos stop true
    let (mapx400, pos, p) ← p.name b pos stop true
    some (.px preference map822 mapx400, pos, p)
  | .key => do
    let (flags, pos) ← u16 b pos stop
    let (protocol, pos) ← takeByte b pos stop
    let (algorithm, pos) ← takeByte b pos stop
    let (key, pos) ← take b pos stop (stop - pos)
    some (.key flags protocol algorithm key, pos, p)
  | .sig => do
    let (covered, pos) ← u16 b pos stop
    let (algorithm, pos) ← takeByte b pos stop
    let (labels, pos) ← takeByte b pos stop
    let (originalTtl, pos) ← u32 b pos stop
    let (expiration, pos) ← u32 b pos stop
    let (inception, pos) ← u32 b pos stop
    let (keyTag, pos) ← u16 b pos stop
    let (signer, pos, p) ← p.name b pos stop false
    let (signature, pos) ← take b pos stop (stop - pos)
    if signature.isEmpty then none
    some (.sig covered algorithm labels originalTtl expiration inception keyTag signer signature,
      pos, p)
  | .opt => do
    let (v, pos) ← optionsLoop b stop false n pos none
    some (.opt v, pos, p)
  | .nsec => do
    let (next, pos, p) ← p.name b pos stop mdns
    let (bitmap, pos) ← take b pos stop (stop - pos)
    if !bitmapValid bitmap then none
    some (.nsec next bitmap, pos, p)
  | .svcb => do
    let (priority, pos) ← u16 b pos stop
    let (target, pos, p) ← p.name b pos stop false
    let (params, pos) ← optionsLoop b stop true (stop - pos) pos none
    if priority ≠ 0 ∧ svcbValid params = false then none
    some (.svcb priority target params, pos, p)
  | .digest => do
    if n < 4 then none
    let (bytes, pos) ← take b pos stop n
    if (digestSize (bytes.getD 3 0)).any (fun size => n ≠ size + 4) = true then none
    some (.bytes bytes, pos, p)
  | .nsec3 => do
    let start := pos
    let (_, pos) ← take b pos stop 4
    let (salt, pos) ← takeByte b pos stop
    let (_, pos) ← take b pos stop salt.toNat
    if kind = 50 then do
      let (hash, pos) ← takeByte b pos stop
      if hash = 0 then none
      let (_, pos) ← take b pos stop hash.toNat
      let (bitmap, pos) ← take b pos stop (stop - pos)
      if !bitmapValid bitmap then none
      some (.bytes ((b.drop start).take (pos - start)), pos, p)
    else some (.bytes ((b.drop start).take (pos - start)), pos, p)
  | .unknown => do
    let (x, pos) ← take b pos stop n
    some (.opaque_ x, pos, p)

/-- The question section. Reference: `dns/wire.rs:232`. -/
def parseQuestions (b : Bytes) :
    (count : Nat) → Parser → Nat → Option (List Question × Nat × Parser)
  | 0, p, pos => some ([], pos, p)
  | count + 1, p, pos => do
    let (name, pos, p) ← p.name b pos b.length true
    let (kind, pos) ← u16 b pos b.length
    let (cls, pos) ← u16 b pos b.length
    let (qs, pos, p) ← parseQuestions b count p pos
    some (⟨name, kind, cls⟩ :: qs, pos, p)

/-- Whether a message is a DNS UPDATE. Reference: `dns/wire.rs:261`. -/
def isUpdate (flags : UInt16) : Bool := (flags >>> 11) &&& 15 == 5

/-- The data of a record; in an update, a deletion carries none. Reference: `dns/wire.rs:261`. -/
def Parser.data (p : Parser) (b : Bytes) (context : Context) (update : Bool) (kind cls : UInt16)
    (pos stop : Nat) : Option (Rdata × Nat × Parser) :=
  if update = true ∧ stop - pos = 0 ∧ (cls = 254 ∨ cls = 255) then some (.empty, pos, p)
  else p.rdata b kind pos stop (context == .mdns || update) (context == .mdns)

/-- One record, its span, and whether it is an OPT record. Reference: `dns/wire.rs:241`. -/
def parseRecord (b : Bytes) (context : Context) (update : Bool) (section_ : Nat) (optSeen : Bool)
    (p : Parser) (pos : Nat) : Option (Record × RecordSpan × Bool × Nat × Parser) := do
  let start := pos
  let (name, pos, p) ← p.name b pos b.length true
  let (kind, pos) ← u16 b pos b.length
  let (cls, pos) ← u16 b pos b.length
  let ttlAt := pos
  let (ttl, pos) ← u32 b pos b.length
  let (len, pos) ← u16 b pos b.length
  let rstart := pos
  let stop := pos + len.toNat
  if stop > b.length then none
  if kind = 41 ∧ (section_ ≠ 2 ∨ optSeen = true ∨ name.labels ≠ []) then none
  let (data, pos, p) ← p.data b context update kind cls pos stop
  if pos ≠ stop then none
  some (⟨name, kind, cls, ttl, data⟩, ⟨start, pos, ttlAt, rstart, stop⟩,
    optSeen || kind == 41, pos, p)

/-- The records of one section. Reference: `dns/wire.rs:240`. -/
def parseRecords (b : Bytes) (context : Context) (update : Bool) (section_ : Nat) :
    (count : Nat) → Bool → Parser → Nat →
      Option (List Record × List RecordSpan × Bool × Nat × Parser)
  | 0, optSeen, p, pos => some ([], [], optSeen, pos, p)
  | count + 1, optSeen, p, pos => do
    let (r, span, optSeen, pos, p) ← parseRecord b context update section_ optSeen p pos
    let (rs, spans, optSeen, pos, p) ← parseRecords b context update section_ count optSeen p pos
    some (r :: rs, span :: spans, optSeen, pos, p)

/-- Reference: `u16at` (`dns/wire.rs:409`). -/
def u16At (b : Bytes) (pos : Nat) : UInt16 := UInt16.ofNat (ofBe ((b.drop pos).take 2))

/-- Reference: `Message::parse` (`dns/wire.rs:215`). -/
def Message.parse (b : Bytes) (context : Context) : Option Message := do
  if b.length < 12 ∨ b.length > maxWire then none
  let qd := (u16At b 4).toNat
  let an := (u16At b 6).toNat
  let ns := (u16At b 8).toNat
  let ar := (u16At b 10).toNat
  let count := qd + an + ns + ar
  if count > maxRecords ∨ count > (b.length - 12) / 5 then none
  let flags := u16At b 2
  let update := isUpdate flags
  let (questions, pos, p) ← parseQuestions b qd ⟨[], maxWork⟩ 12
  let (answers, s0, seen, pos, p) ← parseRecords b context update 0 an false p pos
  let (authority, s1, seen, pos, p) ← parseRecords b context update 1 ns seen p pos
  let (additional, s2, _, pos, _) ← parseRecords b context update 2 ar seen p pos
  if pos ≠ b.length then none
  some ⟨u16At b 0, flags, questions, answers, authority, additional, b, s0 ++ s1 ++ s2⟩

/-! ## The encoder -/

/-- The offsets of the name suffixes written so far, by their exact wire form. Reference:
`Dictionary` (`dns/wire.rs:365`). -/
structure Dictionary where
  entries : OrdMap Bytes Nat
  bytes : Nat

/-- Reference: `Dictionary::default` (`dns/wire.rs:364`). -/
def Dictionary.empty : Dictionary := ⟨.empty, 0⟩

/-- Records the offset of a suffix, up to the caps of the dictionary. Reference:
`dns/wire.rs:383`. -/
def Dictionary.note (d : Dictionary) (suffix : Bytes) (len : Nat) : Dictionary :=
  if d.entries.size < 1024 ∧ d.bytes + suffix.length ≤ 65536 ∧ len < 16384 then
    ⟨d.entries.insert suffix len, d.bytes + suffix.length⟩
  else d

/-- The loop of `Dictionary::write_name` (`dns/wire.rs:370`) over the remaining labels, with `len`
octets of output before them. -/
def Dictionary.writeLabels : List Bytes → Dictionary → (len : Nat) → Option (Bytes × Dictionary)
  | [], d, len => if len = maxWire then none else some ([0], d)
  | l :: ls, d, len =>
    let suffix := Name.labelsWire (l :: ls)
    match d.entries.get suffix with
    | some offset =>
      if len + 2 > maxWire then none
      else some (toBe 2 (49152 + offset), d)
    | none => do
      if len + (l.length + 1) > maxWire then none
      let (out, d) ← Dictionary.writeLabels ls (d.note suffix len) (len + (l.length + 1))
      some (UInt8.ofNat l.length :: l ++ out, d)

/-- Writes a name, compressed against the dictionary or as it is. Reference:
`Dictionary::write_name` (`dns/wire.rs:370`) and `Name::write` (`dns/wire.rs:49`). -/
def writeName (compress : Bool) (n : Name) (d : Dictionary) (len : Nat) :
    Option (Bytes × Dictionary) :=
  if compress then d.writeLabels n.labels len else some (n.wire, d)

/-- Reference: `write_options` (`dns/wire.rs:824`). -/
def writeOptions : List (UInt16 × Bytes) → Option Bytes
  | [] => some []
  | (code, data) :: v => do
    if data.length > maxWire then none
    let rest ← writeOptions v
    some (toBe 2 code.toNat ++ toBe 2 data.length ++ data ++ rest)

/-- The character strings of a TXT record. Reference: `dns/wire.rs:753`. -/
def writeStrings : List Bytes → Option Bytes
  | [] => some []
  | s :: v => do
    if s.length > 255 then none
    let rest ← writeStrings v
    some (UInt8.ofNat s.length :: s ++ rest)

/-- The octets of record data, before the length check. Reference: `write_data_with`
(`dns/wire.rs:715`); the signer of a SIG and the target of a SVCB are never compressed. -/
def writeRdata (compress : Bool) (d : Dictionary) (len : Nat) : Rdata → Option (Bytes × Dictionary)
  | .empty => some ([], d)
  | .a x => some (x.1, d)
  | .aaaa x => some (x.1, d)
  | .name n => writeName compress n d len
  | .srv priority weight port target => do
    let head := toBe 2 priority.toNat ++ toBe 2 weight.toNat ++ toBe 2 port.toNat
    let (n, d) ← writeName compress target d (len + head.length)
    some (head ++ n, d)
  | .preference preference name => do
    let head := toBe 2 preference.toNat
    let (n, d) ← writeName compress name d (len + head.length)
    some (head ++ n, d)
  | .twoNames first second => do
    let (n1, d) ← writeName compress first d len
    let (n2, d) ← writeName compress second d (len + n1.length)
    some (n1 ++ n2, d)
  | .px preference map822 mapx400 => do
    let head := toBe 2 preference.toNat
    let (n1, d) ← writeName compress map822 d (len + head.length)
    let (n2, d) ← writeName compress mapx400 d (len + head.length + n1.length)
    some (head ++ n1 ++ n2, d)
  | .txt v => (writeStrings v).map fun s => (s, d)
  | .soa mname rname serial refresh retry expire minimum => do
    let (n1, d) ← writeName compress mname d len
    let (n2, d) ← writeName compress rname d (len + n1.length)
    some (n1 ++ n2 ++ toBe 4 serial.toNat ++ toBe 4 refresh.toNat ++ toBe 4 retry.toNat ++
      toBe 4 expire.toNat ++ toBe 4 minimum.toNat, d)
  | .key flags protocol algorithm key =>
    some (toBe 2 flags.toNat ++ [protocol, algorithm] ++ key, d)
  | .sig covered algorithm labels originalTtl expiration inception keyTag signer signature =>
    some (toBe 2 covered.toNat ++ [algorithm, labels] ++ toBe 4 originalTtl.toNat ++
      toBe 4 expiration.toNat ++ toBe 4 inception.toNat ++ toBe 2 keyTag.toNat ++ signer.wire ++
      signature, d)
  | .opt v => (writeOptions v).map fun s => (s, d)
  | .nsec next bitmap => do
    let (n, d) ← writeName compress next d len
    some (n ++ bitmap, d)
  | .svcb priority target params => do
    let opts ← writeOptions params
    some (toBe 2 priority.toNat ++ target.wire ++ opts, d)
  | .bytes v => some (v, d)
  | .opaque_ _ => none

/-- The record types whose names the encoder compresses for multicast. Reference:
`dns/wire.rs:347`. -/
def compressedKinds : List UInt16 := [2, 5, 6, 12, 15, 17, 18, 21, 26, 33, 36, 39, 47]

/-- One question. Reference: `dns/wire.rs:320`. -/
def writeQuestion (context : Context) (q : Question) (d : Dictionary) (len : Nat) :
    Option (Bytes × Dictionary) := do
  let (n, d) ← writeName (context == .mdns) q.name d len
  some (n ++ toBe 2 q.kind.toNat ++ toBe 2 q.cls.toNat, d)

/-- One record. Reference: `dns/wire.rs:329`. -/
def writeRecord (context : Context) (r : Record) (d : Dictionary) (len : Nat) :
    Option (Bytes × Dictionary) := do
  let (n, d) ← writeName (context == .mdns) r.name d len
  let head := n ++ toBe 2 r.kind.toNat ++ toBe 2 r.cls.toNat ++ toBe 4 r.ttl.toNat
  let start := len + head.length + 2
  let (data, d) ← writeRdata (context == .mdns && compressedKinds.contains r.kind) d start r.data
  if start + data.length > maxWire then none
  some (head ++ toBe 2 data.length ++ data, d)

/-- Writes a list of items one after the other. -/
def writeAll {α : Type} (write : α → Dictionary → Nat → Option (Bytes × Dictionary)) :
    List α → Dictionary → Nat → Option (Bytes × Dictionary)
  | [], d, _ => some ([], d)
  | x :: xs, d, len => do
    let (b, d) ← write x d len
    let (rest, d) ← writeAll write xs d (len + b.length)
    some (b ++ rest, d)

/-- The header of an encoded message: identifier, flags and section counts. -/
def Message.header (m : Message) : Bytes :=
  toBe 2 m.id.toNat ++ toBe 2 m.flags.toNat ++ toBe 2 m.questions.length ++
    toBe 2 m.answers.length ++ toBe 2 m.authority.length ++ toBe 2 m.additional.length

/-- Reference: `Message::encode_context` (`dns/wire.rs:301`), which parses what it wrote before it
returns it. -/
def Message.encodeContext (m : Message) (context : Context) : Option Bytes := do
  if m.questions.length + m.answers.length + m.authority.length + m.additional.length > maxRecords
    then none
  let (qs, d) ← writeAll (writeQuestion context) m.questions .empty m.header.length
  let (rs, _) ← writeAll (writeRecord context) m.records d (m.header.length + qs.length)
  let b := m.header ++ qs ++ rs
  let _ ← Message.parse b context
  some b

/-- Reference: `Message::encode` (`dns/wire.rs:298`). -/
def Message.encode (m : Message) : Option Bytes := m.encodeContext .unicast

end SnacMachine.Dns
