import Mathlib.Data.List.Forall2
import SnacMachine.Srp.Journal
import SnacMachine.Srp.Verified

/-!
# Reading back a journal

`HostOk`, `ServiceOk` and `ReplyOk` say of one entry what the journal's reader checks of it, and
`Storable` says it of a whole registry at the moment of writing. What is written of a storable
registry is read back as its image (`decode_encode`): names in lower case and lease ends moved to
the new clock by the time that has passed.
-/

namespace SnacMachine.Srp

open Dns

/-- What the journal's reader checks of two lease ends: they are ordered and not too far away. -/
structure LeasesOk (now expires keyExpires : Nat) : Prop where
  ordered : expires ≤ keyExpires
  bounded : keyExpires ≤ now + Journal.maxRemaining

/-- A host that the journal's reader accepts. -/
structure HostOk (now : Nat) (name : Name) (h : Host) : Prop where
  labels : name.labels ≠ []
  key : h.key.Ok
  leases : LeasesOk now h.expires h.keyExpires
  addresses : ∀ r ∈ h.addresses, RecordAt name [1, 28] r
  count : h.addresses.length ≤ 256

/-- A service that the journal's reader accepts. -/
structure ServiceOk (now : Nat) (name : Name) (s : Service) : Prop where
  labels : name.labels ≠ []
  host : s.host.labels ≠ []
  key : s.key.Ok
  leases : LeasesOk now s.expires s.keyExpires
  records : ServiceRecords name s.host s.records s.discovery

/-- A registry whose hosts and services the journal's reader accepts. -/
structure Registry.EntriesOk (r : Registry) (now : Nat) : Prop where
  hosts : ∀ e ∈ r.hosts.entries, HostOk now e.1 e.2
  services : ∀ e ∈ r.services.entries, ServiceOk now e.1 e.2

/-- A reply that the journal's reader accepts. -/
structure ReplyOk (now : Nat) (x : Receipt) : Prop where
  ordered : x.grant.lease ≤ x.grant.keyLease
  remaining : x.expires ≤ now + 30000
  age : (now : Int) ≤ x.receivedAt + 30000

/-- A registry whose journal the reader accepts. -/
structure Registry.Storable (now : Nat) (r : Registry) : Prop where
  hosts : ∀ e ∈ r.hosts.entries, HostOk now e.1 e.2
  services : ∀ e ∈ r.services.entries, ServiceOk now e.1 e.2
  replies : ∀ e ∈ r.replies.entries, ReplyOk now e.2
  bounds : r.checkBounds = true

namespace Journal

/-! ## Readers on what was written -/

/-- Taking as many octets as were put in front returns these. -/
theorem take_append (x rest : Bytes) : take x.length (x ++ rest) = some (x, rest) := by
  simp [take]

/-- A number is read back from its octets. -/
theorem number_append {w n : Nat} (h : n < 256 ^ w) (rest : Bytes) :
    number w (toBe w n ++ rest) = some (n, rest) := by
  have := take_append (toBe w n) rest
  rw [length_toBe] at this
  simp [number, this, ofBe_toBe h]

/-- A number of one octet is read back from the octet. -/
theorem number_byte (x : UInt8) (rest : Bytes) : number 1 (x :: rest) = some (x.toNat, rest) := by
  have := take_append [x] rest
  simp only [List.length_singleton, List.singleton_append] at this
  simp [number, this, ofBe_cons]

/-- The labels of a name are read back from its wire form. By recursion on the labels, with more
fuel than there are labels. -/
theorem readLabels_wire : ∀ {ls : List Bytes} {fuel : Nat}, (∀ l ∈ ls, l ≠ [] ∧ l.length ≤ 63) →
    ls.length < fuel → readLabels fuel (Name.labelsWire ls) = some ls
  | [], fuel + 1, _, _ => by simp [readLabels]
  | l :: ls, fuel + 1, hok, hf => by
    obtain ⟨hn, hne, -, -⟩ := label_octet (hok l List.mem_cons_self)
    have hl := hok l List.mem_cons_self
    have ih := readLabels_wire (fun x hx => hok x (List.mem_cons_of_mem _ hx))
      (Nat.lt_of_succ_lt_succ hf)
    rw [Name.labelsWire_cons, List.cons_append]
    simp only [readLabels, hne, if_false, hn, List.length_append]
    rw [if_neg (by omega), List.drop_left, List.take_left, ih]
    rfl

/-- A name is read back in lower case. Its canonical form is written with its length in front, and
read label by label. -/
theorem readName_putName {n : Name} (h : n.labels ≠ []) (rest : Bytes) :
    readName (putName n ++ rest) = some (n.lower, rest) := by
  have hlen : n.canonical.length ≤ 255 := by
    rw [Name.length_canonical]
    exact n.length_wire_le
  have hlabels : readLabels n.canonical.length n.canonical = some n.lower.labels := by
    refine readLabels_wire n.lower.ok.1 ?_
    rw [Name.length_canonical, List.length_map]
    exact n.length_labels_lt
  have hne : n.lower.labels ≠ [] := fun he => h (by simpa [Name.lower] using he)
  unfold putName readName
  rw [List.append_assoc, number_append (by omega)]
  simp only [Option.bind_eq_bind, Option.bind_some]
  rw [if_neg (by omega), take_append]
  simp only [Option.bind_some, hlabels, hne, if_false, Name.fromLabels_labels]
  rfl

/-- The length of a key fits two octets. -/
theorem length?_lt {a : UInt8} {n : Nat} (h : Key.length? a = some n) : n < 65536 := by
  unfold Key.length? at h
  split at h <;> [skip; split at h <;> [skip; split at h <;> [skip; split at h]]] <;>
    simp at h <;> omega

/-- A key is read back as it was written, if the cryptographic package accepts it. The fields are
read one after the other, and the length is that of the algorithm. -/
theorem readKey_putKey {c : Crypto} {k : Key} (hk : k.Ok)
    (hv : c.validPublic k.algorithm k.bytes = true) (rest : Bytes) :
    readKey c (putKey k ++ rest) = some (k, rest) := by
  obtain ⟨hp, hl⟩ := hk
  have hlt := length?_lt hl
  unfold putKey readKey
  simp only [List.append_assoc, List.cons_append, List.nil_append]
  rw [number_append (by have := k.flags.toNat_lt; omega)]
  simp only [Option.bind_eq_bind, Option.bind_some, number_byte]
  rw [number_append (by omega)]
  simp only [Option.bind_some, UInt8.ofNat_toNat, hl]
  rw [if_neg (by simp [hp])]
  simp only [take_append, Option.bind_some, hv, UInt16.ofNat_toNat, Bool.true_eq_false, if_false]
  rfl

/-- Leases are read back with their ends moved to the new clock. The three numbers stand one behind
the other, and each fits into its field. -/
theorem readLeases_putLeases (t : Restart) {now expires keyExpires : Nat} (receivedAt : Int)
    (h : LeasesOk now expires keyExpires) (rest : Bytes) :
    readLeases t (putLeases now expires keyExpires receivedAt ++ rest) =
      some ((t.deadline (expires - now), t.deadline (keyExpires - now),
        t.receivedAt (age now receivedAt)), rest) := by
  have h₁ := h.ordered
  have h₂ := h.bounded
  have hage : age now receivedAt < 256 ^ 8 := by
    unfold age u64Max
    omega
  unfold maxRemaining at h₂
  unfold putLeases readLeases
  simp only [List.append_assoc]
  rw [number_append (by omega)]
  simp only [Option.bind_eq_bind, Option.bind_some]
  rw [number_append (by omega)]
  simp only [Option.bind_some]
  rw [if_neg (by unfold maxRemaining; omega), number_append hage]
  rfl

/-- The message that carries one record is well formed. -/
theorem recordMessage_wellFormed {r : Record} (h : Fits r.kind r.data) (hk : r.kind ≠ 41) :
    (recordMessage r).WellFormed := by
  refine ⟨Nat.le_of_ble_eq_true rfl, fun x hx => ?_, ⟨fun h => absurd h hk, trivial⟩, trivial,
    trivial⟩
  obtain rfl : x = r := by simpa [Message.records, recordMessage, Message.new] using hx
  exact .inr ⟨h, fun _ hdel => absurd hdel.1 (by simp [recordMessage, Message.new, isUpdate])⟩

/-- A record that was written is read back. It is written as a message with this record alone, which
the parser reads back (`encodeContext_parse`). -/
theorem readRecord_encode {r : Record} {wire : Bytes} (hfit : Fits r.kind r.data) (hk : r.kind ≠ 41)
    (h : (recordMessage r).encode = some wire) (rest : Bytes) :
    readRecord (toBe 4 wire.length ++ (wire ++ rest)) = some (r, rest) := by
  obtain ⟨m, hm, hsame⟩ := encodeContext_parse (recordMessage_wellFormed hfit hk) h
  have hlen : wire.length ≤ 65535 := by
    unfold Message.parse at hm
    split at hm
    · exact absurd hm (by simp)
    · next hb =>
      unfold maxWire at hb
      omega
  unfold readRecord
  rw [number_append (by omega)]
  simp only [Option.bind_eq_bind, Option.bind_some]
  rw [if_neg (by omega), take_append]
  simp only [Option.bind_some, hm, hsame.answers, hsame.id, hsame.flags, hsame.questions,
    hsame.authority, hsame.additional]
  simp [recordMessage, Message.new]

/-- Records that were written are read back, after their number. By recursion on the records, each
of which is appended to what was written. -/
theorem readCount_putRecord : ∀ {rs : List Record} {b b' : Bytes},
    (∀ r ∈ rs, Fits r.kind r.data ∧ r.kind ≠ 41) → rs.foldlM putRecord b = some b' →
    ∃ x, b' = b ++ x ∧ ∀ rest, readCount rs.length (x ++ rest) = some (rs, rest)
  | [], b, b', _, h => by
    obtain rfl := Option.some.inj h
    exact ⟨[], by simp, fun rest => rfl⟩
  | r :: rs, b, b', hfit, h => by
    rw [List.foldlM_cons] at h
    obtain ⟨b₁, h₁, h₂⟩ := Option.bind_eq_some_iff.1 h
    simp only [putRecord, Option.bind_eq_bind, Option.bind_eq_some_iff,
      Option.ite_none_left_eq_some, Option.some.injEq] at h₁
    obtain ⟨wire, hwire, -, rfl⟩ := h₁
    obtain ⟨x, rfl, hx⟩ := readCount_putRecord (fun y hy => hfit y (List.mem_cons_of_mem _ hy)) h₂
    refine ⟨toBe 4 wire.length ++ (wire ++ x), by simp, fun rest => ?_⟩
    obtain ⟨hf, hk⟩ := hfit r List.mem_cons_self
    rw [List.length_cons, readCount, List.append_assoc, List.append_assoc,
      readRecord_encode hf hk hwire]
    simp [hx]

/-- Records are read back as they were written, if they are not too many. -/
theorem readRecords_putRecords {rs : List Record} {b b' : Bytes}
    (hfit : ∀ r ∈ rs, Fits r.kind r.data ∧ r.kind ≠ 41) (hlen : rs.length ≤ 256)
    (h : putRecords b rs = some b') :
    ∃ x, b' = b ++ x ∧ ∀ rest, readRecords (x ++ rest) = some (rs, rest) := by
  obtain ⟨x, rfl, hx⟩ := readCount_putRecord hfit h
  refine ⟨toBe 2 rs.length ++ x, by simp, fun rest => ?_⟩
  unfold readRecords
  rw [List.append_assoc, number_append (by omega)]
  simp only [Option.bind_eq_bind, Option.bind_some]
  rw [if_neg (by omega), hx]

/-! ## Entries -/

/-- A host after a restart, before anything expires. -/
def hostImage (t : Restart) (now : Nat) (h : Host) : Host :=
  ⟨h.key, h.addresses, t.deadline (h.expires - now), t.deadline (h.keyExpires - now),
    t.receivedAt (age now h.receivedAt)⟩

/-- A service after a restart, before anything expires. -/
def serviceImage (t : Restart) (now : Nat) (s : Service) : Service :=
  ⟨s.host.lower, s.key, s.records, s.discovery, t.deadline (s.expires - now),
    t.deadline (s.keyExpires - now), t.receivedAt (age now s.receivedAt)⟩

/-- A reply after a restart, before anything expires. -/
def replyImage (t : Restart) (now : Nat) (x : Receipt) : Receipt :=
  ⟨x.grant, t.receivedAt (age now x.receivedAt), t.deadline (x.expires - now)⟩

/-- A record of certain kinds is no OPT record if that kind is not among them. -/
theorem kind_ne_opt {name : Name} {kinds : List UInt16} {r : Record} (h : RecordAt name kinds r)
    (hk : (41 : UInt16) ∉ kinds) : r.kind ≠ 41 := fun he => hk (he ▸ h.kind)

/-- A host is read back as its image. Its name, key, leases and addresses are read back in turn. -/
theorem readHost_putHost {c : Crypto} {t : Restart} {now : Nat} {e : Name × Host} {b b' : Bytes}
    (hv : ∀ a k, c.validPublic a k = true) (he : HostOk now e.1 e.2)
    (h : putHost now b e = some b') :
    ∃ x, b' = b ++ x ∧ ∀ rest,
      readHost c t (x ++ rest) = some ((e.1.lower, hostImage t now e.2), rest) := by
  obtain ⟨x, rfl, hx⟩ := readRecords_putRecords
    (fun r hr => ⟨(he.addresses r hr).fits, kind_ne_opt (he.addresses r hr) (by decide)⟩) he.count h
  refine ⟨putName e.1 ++ (putKey e.2.key ++
    (putLeases now e.2.expires e.2.keyExpires e.2.receivedAt ++ x)), by simp, fun rest => ?_⟩
  have hall : e.2.addresses.all (addressOk e.1.lower) = true := by
    rw [List.all_eq_true]
    intro r hr
    obtain ⟨hn, hk, hc, -⟩ := he.addresses r hr
    simp only [addressOk, Bool.and_eq_true, beq_iff_eq, List.contains_iff_mem]
    exact ⟨⟨PartialEquivBEq.trans hn (Name.beq_iff.2 e.1.canonical_lower.symm), hk⟩, hc⟩
  unfold readHost
  simp only [List.append_assoc]
  rw [readName_putName he.labels]
  simp only [Option.bind_eq_bind, Option.bind_some, readKey_putKey he.key (hv _ _),
    readLeases_putLeases t e.2.receivedAt he.leases, hx, hall, Bool.true_eq_false, if_false]
  rfl

/-- A service is read back as its image: its name, its host, its key, its leases and its two lists
of records, one after the other. The reader's checks of the records are the clauses of
`ServiceOk`. -/
theorem readService_putService {c : Crypto} {t : Restart} {now : Nat} {e : Name × Service}
    {b b' : Bytes} (hv : ∀ a k, c.validPublic a k = true) (he : ServiceOk now e.1 e.2)
    (h : putService now b e = some b') :
    ∃ x, b' = b ++ x ∧ ∀ rest,
      readService c t (x ++ rest) = some ((e.1.lower, serviceImage t now e.2), rest) := by
  unfold putService at h
  obtain ⟨b₁, h₁, h₂⟩ := Option.bind_eq_some_iff.1 h
  have hrec := he.records
  obtain ⟨x, rfl, hx⟩ := readRecords_putRecords
    (fun r hr => ⟨(hrec.kinds r hr).fits, kind_ne_opt (hrec.kinds r hr) (by decide)⟩) hrec.count h₁
  obtain ⟨y, rfl, hy⟩ := readRecords_putRecords
    (fun r hr => ⟨(hrec.pointers r hr).fits, by rw [(hrec.pointers r hr).kind]; decide⟩)
    hrec.pointerCount h₂
  refine ⟨putName e.1 ++ (putName e.2.host ++ (putKey e.2.key ++
    (putLeases now e.2.expires e.2.keyExpires e.2.receivedAt ++ (x ++ y)))), by simp,
    fun rest => ?_⟩
  have hlower : ∀ n : Name, (n == n.lower) = true := fun n => Name.beq_iff.2 n.canonical_lower.symm
  have hall : e.2.records.all (serviceRecordOk e.1.lower e.2.host.lower) = true := by
    rw [List.all_eq_true]
    intro r hr
    obtain ⟨hn, hk, hc, -⟩ := hrec.kinds r hr
    have htarget := hrec.targets r hr
    simp only [serviceRecordOk, Bool.and_eq_true, beq_iff_eq, List.contains_iff_mem]
    refine ⟨⟨⟨PartialEquivBEq.trans hn (hlower _), hc⟩, hk⟩, ?_⟩
    split
    · next p w q target hd =>
      exact PartialEquivBEq.trans (htarget p w q target hd) (hlower _)
    · rfl
  have hall' : e.2.discovery.all (discoveryOk e.1.lower) = true := by
    rw [List.all_eq_true]
    intro r hr
    obtain ⟨hk, hc, hd, -⟩ := hrec.pointers r hr
    obtain ⟨n, hn, hne⟩ := Rdata.eq_name_of_beq hd
    simp only [discoveryOk, Bool.and_eq_true, beq_iff_eq]
    refine ⟨⟨hk, hc⟩, ?_⟩
    rw [hn]
    exact (PartialEquivBEq.trans hne (hlower _) : (n == e.1.lower) = true)
  unfold readService
  simp only [List.append_assoc]
  rw [readName_putName he.labels]
  simp only [Option.bind_eq_bind, Option.bind_some, readName_putName he.host,
    readKey_putKey he.key (hv _ _), readLeases_putLeases t e.2.receivedAt he.leases, hx, hy, hall,
    hall', Bool.true_eq_false, if_false, or_self]
  rfl

/-- A reply is read back as its image. The fields are cut off one after the other; the age is at
most 30 s, and the leases are ordered, so every check of the reader passes. -/
theorem readReply_putReply {t : Restart} {now : Nat} {e : Octets 32 × Receipt}
    (he : ReplyOk now e.2) (rest : Bytes) :
    readReply t (putReply now e ++ rest) = some ((e.1, replyImage t now e.2), rest) := by
  have h₁ := he.ordered
  have h₂ := he.remaining
  have h₃ := he.age
  have hage : age now e.2.receivedAt ≤ 30000 := by
    unfold age
    omega
  have hl := e.1.2
  have hlease := e.2.grant.lease.toNat_lt
  have hkey := e.2.grant.keyLease.toNat_lt
  have hord := UInt32.le_iff_toNat_le.1 h₁
  have hdrop : ∀ y : Bytes, (e.1.1 ++ y).drop 32 = y := fun y => by
    simp [hl]
  have htake : ∀ y : Bytes, (e.1.1 ++ y).take 32 = e.1.1 := fun y => by
    simp [hl]
  unfold putReply readReply
  rw [dif_pos (by simp [hl])]
  simp only [List.append_assoc, hdrop, htake]
  rw [number_append (by omega)]
  simp only [Option.bind_eq_bind, Option.bind_some]
  rw [number_append (by omega)]
  simp only [Option.bind_some]
  rw [number_append (by omega)]
  simp only [Option.bind_some]
  rw [number_append (by omega)]
  simp only [Option.bind_some, UInt32.ofNat_toNat]
  rw [if_neg (by omega)]
  rfl

/-- Entries are read back one by one, and in their order, into the map that they are read into. By
recursion on the entries: each is larger than those read so far, so that it is new and enters the
map at the end. -/
theorem readEntries_foldlM {K V W : Type} [OrdKey K] (read : Bytes → Option ((K × W) × Bytes))
    {put : Bytes → K × V → Option Bytes} {f : K × V → K × W} (hf : ∀ e, SameKey (f e).1 e.1) :
    ∀ {l : List (K × V)} {b b' : Bytes} {m : OrdMap K W},
    (∀ e ∈ l, ∀ b b', put b e = some b' → ∃ x, b' = b ++ x ∧
      ∀ rest, read (x ++ rest) = some (f e, rest)) →
    l.Pairwise (fun a b => OrdKey.code a.1 < OrdKey.code b.1) →
    (∀ a ∈ m.entries, ∀ e ∈ l, OrdKey.code a.1 < OrdKey.code e.1) → l.foldlM put b = some b' →
    ∃ x, b' = b ++ x ∧ ∀ rest, ∃ m', readEntries read l.length m (x ++ rest) = some (m', rest) ∧
      m'.entries = m.entries ++ l.map f
  | [], b, b', m, _, _, _, h => by
    obtain rfl := Option.some.inj h
    exact ⟨[], by simp, fun rest => ⟨m, rfl, by simp⟩⟩
  | e :: l, b, b', m, hput, hsorted, hm, h => by
    rw [List.foldlM_cons] at h
    obtain ⟨b₁, h₁, h₂⟩ := Option.bind_eq_some_iff.1 h
    obtain ⟨x, rfl, hx⟩ := hput e List.mem_cons_self _ _ h₁
    have ⟨he, hl⟩ := List.pairwise_cons.1 hsorted
    have hcode : OrdKey.code (f e).1 = OrdKey.code e.1 := hf e
    obtain ⟨hfresh, hins⟩ := OrdMap.entries_insert_last (m := m) (k := (f e).1) (f e).2
      (fun a ha => by rw [hcode]; exact hm a ha e List.mem_cons_self)
    obtain ⟨y, rfl, hy⟩ := readEntries_foldlM read hf (m := m.insert (f e).1 (f e).2)
      (fun e' he' => hput e' (List.mem_cons_of_mem _ he')) hl (fun a ha e' he' => by
        rw [hins] at ha
        rcases List.mem_append.1 ha with ha | ha
        · exact hm a ha e' (List.mem_cons_of_mem _ he')
        · rw [List.mem_singleton.1 ha, hcode]
          exact he e' he') h₂
    refine ⟨x ++ y, by simp, fun rest => ?_⟩
    obtain ⟨m', hm', hent⟩ := hy rest
    refine ⟨m', ?_, by rw [hent, hins]; simp⟩
    rw [List.length_cons, readEntries, List.append_assoc, hx]
    simp only [Option.bind_eq_bind, Option.bind_some, insertFresh, hfresh, Bool.false_eq_true,
      if_false, hm']

/-! ## The whole journal -/

/-- A registry after a restart, before anything expires. -/
def image (t : Restart) (now : Nat) (r : Registry) : Registry where
  hosts := r.hosts.mapEntries (fun e => (e.1.lower, hostImage t now e.2)) fun e => e.1.sameKey_lower
  services := r.services.mapEntries (fun e => (e.1.lower, serviceImage t now e.2)) fun e =>
    e.1.sameKey_lower
  replies := r.replies.mapEntries (fun e => (e.1, replyImage t now e.2)) fun _ => rfl
  policy := LeasePolicy.default

/-- The case of a name does not change what it is charged. -/
theorem nameCharge_lower (n : Name) : nameCharge n.lower = nameCharge n := by
  unfold nameCharge
  rw [Name.canonical_lower, Name.length_labels_lower]

/-- The image of a registry is charged like the registry. -/
theorem charge_image (t : Restart) (now : Nat) (r : Registry) :
    (image t now r).charge = r.charge := by
  have hhost : ∀ e : Name × Host,
      Registry.hostCharge (e.1.lower, hostImage t now e.2) = Registry.hostCharge e := fun e => by
    simp [Registry.hostCharge, hostImage, nameCharge_lower]
  have hservice : ∀ e : Name × Service,
      Registry.serviceCharge (e.1.lower, serviceImage t now e.2) = Registry.serviceCharge e :=
    fun e => by simp [Registry.serviceCharge, serviceImage, nameCharge_lower]
  simp only [Registry.charge, image, OrdMap.mapEntries, OrdMap.size, List.map_map, List.length_map,
    Function.comp_def, hhost, hservice]

/-- Sets built from names that differ in case only are alike. -/
theorem foldl_insert_alike {l l' : List Name} (h : List.Forall₂ SameKey l l') :
    ∀ {m m' : OrdMap Name Unit}, m.Alike m' →
    (l.foldl (fun set n => set.insert n ()) m).Alike
    (l'.foldl (fun set n => set.insert n ()) m') := by
  induction h with
  | nil => exact fun h => h
  | cons hk _ ih => exact fun h => ih (h.insert hk ())

/-- Services are counted alike under names that differ in case only. By induction on the two lists,
with maps that are alike. -/
theorem foldlM_countService_alike {l l' : List Name} (h : List.Forall₂ SameKey l l') :
    ∀ {m m' : OrdMap Name Nat}, m.Alike m' →
    (l.foldlM Registry.countService m).isSome = (l'.foldlM Registry.countService m').isSome := by
  induction h with
  | nil => exact fun _ => rfl
  | @cons a b _ _ hk _ ih =>
    intro m m' h
    rw [List.foldlM_cons, List.foldlM_cons]
    simp only [Registry.countService, h.get hk, Option.bind_eq_bind]
    split
    · rfl
    · exact ih (h.insert hk _)

/-- Maps that change the case of names only give names that differ in case only. -/
theorem forall₂_lower {α β : Type} {f : α → Name} {g : β → Name} {k : α → β}
    (h : ∀ x, SameKey (g (k x)) (f x)) (l : List α) :
    List.Forall₂ SameKey ((l.map k).map g) (l.map f) := by
  induction l with
  | nil => exact .nil
  | cons x l ih => exact .cons (h x) ih

/-- The image of a registry is within the bounds just when the registry is. The bounds count names
and services, and the image only writes the names in lower case. -/
theorem checkBounds_image (t : Restart) (now : Nat) (r : Registry) :
    (image t now r).checkBounds = r.checkBounds := by
  have hhosts : List.Forall₂ SameKey (image t now r).hosts.keys r.hosts.keys :=
    forall₂_lower (fun e => e.1.sameKey_lower) r.hosts.entries
  have hservices : List.Forall₂ SameKey ((image t now r).services.values.map fun s => s.host)
      (r.services.values.map fun s => s.host) := by
    simp only [OrdMap.values, List.map_map]
    exact forall₂_lower (g := fun e : Name × Service => e.2.host) (fun e =>
      e.2.host.sameKey_lower) _
  have hparents : (image t now r).parents.size = r.parents.size :=
    (foldl_insert_alike (List.rel_append hhosts hservices) (OrdMap.Alike.refl _)).size
  have hsize : (image t now r).services.size = r.services.size := by
    simp [image, OrdMap.mapEntries, OrdMap.size]
  have hreplies : (image t now r).replies.size = r.replies.size := by
    simp [image, OrdMap.mapEntries, OrdMap.size]
  unfold Registry.checkBounds Registry.counts
  simp only [hparents, hsize, hreplies, charge_image]
  split
  · rfl
  · exact foldlM_countService_alike hservices (OrdMap.Alike.refl _)

/-- A set does not shrink when names are inserted. -/
theorem size_foldl_insert_ge : ∀ (l : List Name) (m : OrdMap Name Unit),
    m.size ≤ (l.foldl (fun set n => set.insert n ()) m).size
  | [], _ => Nat.le_refl _
  | n :: l, m => (m.size_le_insert n ()).trans (size_foldl_insert_ge l _)

/-- A set grows by one for each new name, if the names come in their order. By recursion on the
names, each of which is inserted at the end. -/
theorem size_foldl_insert_sorted : ∀ (l : List Name) (m : OrdMap Name Unit),
    l.Pairwise (fun a b => OrdKey.code a < OrdKey.code b) →
    (∀ e ∈ m.entries, ∀ n ∈ l, OrdKey.code e.1 < OrdKey.code n) →
    (l.foldl (fun set n => set.insert n ()) m).size = m.size + l.length
  | [], m, _, _ => rfl
  | n :: l, m, hl, hm => by
    have ⟨hn, hl⟩ := List.pairwise_cons.1 hl
    obtain ⟨-, hins⟩ := OrdMap.entries_insert_last (m := m) () fun e he =>
      hm e he n List.mem_cons_self
    rw [List.foldl_cons, size_foldl_insert_sorted l _ hl fun e he x hx => ?_]
    · simp only [OrdMap.size, hins, List.length_append, List.length_cons, List.length_nil]
      omega
    · rw [hins] at he
      rcases List.mem_append.1 he with he | he
      · exact hm e he x (List.mem_cons_of_mem _ hx)
      · rw [List.mem_singleton.1 he]
        exact hn x hx

/-- There are at least as many parents as hosts. -/
theorem size_hosts_le_parents (r : Registry) : r.hosts.size ≤ r.parents.size := by
  unfold Registry.parents
  rw [List.foldl_append]
  refine Nat.le_trans ?_ (size_foldl_insert_ge _ _)
  rw [size_foldl_insert_sorted]
  · simp [OrdMap.keys, OrdMap.size]
  · exact List.pairwise_map.2 r.hosts.sorted
  · simp

/-- A registry within its bounds has at most 128 hosts, 1024 services and 128 replies. -/
theorem checkBounds_sizes {r : Registry} (h : r.checkBounds = true) :
    r.hosts.size ≤ 128 ∧ r.services.size ≤ 1024 ∧ r.replies.size ≤ 128 := by
  unfold Registry.checkBounds Registry.counts at h
  simp only at h
  split at h
  · exact absurd h (by simp)
  · next hb =>
    have := size_hosts_le_parents r
    omega

/-- Replies are written one after the other, and writing them does not fail. -/
theorem foldlM_putReply (now : Nat) (l : List (Octets 32 × Receipt)) (b : Bytes) :
    l.foldlM (fun b e => some (b ++ putReply now e)) b = some (b ++ l.flatMap (putReply now)) := by
  induction l generalizing b with
  | nil => simp
  | cons e l ih => simp [ih]

/-- What is written of a storable registry is read back as its image, without what has expired. The
three maps are read back with `readEntries_foldlM`, and the bounds that the reader checks are those
of the registry (`checkBounds_image`). -/
theorem decode_encode {c : Crypto} {r : Registry} {now wall : Nat} {bytes : Bytes}
    (hv : ∀ a k, c.validPublic a k = true) (hr : r.Storable now) (hw : wall < 256 ^ 8)
    (h : encode c r now wall = some bytes) (now₂ wall₂ : Nat) :
    decode c bytes now₂ wall₂ =
      some ((image ⟨now₂, satMul (wall₂ - wall) 1000⟩ now r).expire now₂) := by
  generalize ht : (⟨now₂, satMul (wall₂ - wall) 1000⟩ : Restart) = t
  simp only [encode, Option.bind_eq_bind, Option.bind_eq_some_iff, Option.ite_none_left_eq_some,
    Option.some.injEq] at h
  obtain ⟨b₁, h₁, b₂, h₂, hlen, rfl⟩ := h
  obtain ⟨hsizes₁, hsizes₂, hsizes₃⟩ := checkBounds_sizes hr.bounds
  obtain ⟨x₁, rfl, hx₁⟩ := readEntries_foldlM (readHost c t) (m := .empty)
    (f := fun e => (e.1.lower, hostImage t now e.2)) (fun e => e.1.sameKey_lower)
    (fun e he b b' h => readHost_putHost hv (hr.hosts e he) h) r.hosts.sorted (by simp) h₁
  obtain ⟨x₂, rfl, hx₂⟩ := readEntries_foldlM (readService c t) (m := .empty)
    (f := fun e => (e.1.lower, serviceImage t now e.2)) (fun e => e.1.sameKey_lower)
    (fun e he b b' h => readService_putService hv (hr.services e he) h)
    r.services.sorted (by simp) h₂
  obtain ⟨x₃, hx₃', hx₃⟩ := readEntries_foldlM (readReply t) (m := .empty)
    (f := fun e => (e.1, replyImage t now e.2)) (fun _ => rfl)
    (fun e he b b' h => ⟨putReply now e, (Option.some.inj h).symm,
      fun rest => readReply_putReply (hr.replies e he) rest⟩) r.replies.sorted (by simp)
    (foldlM_putReply now r.replies.entries (putHeader r wall ++ x₁ ++ x₂))
  obtain rfl : x₃ = r.replies.entries.flatMap (putReply now) := (List.append_cancel_left hx₃').symm
  have hbody : readBody c now₂ wall₂ ((putHeader r wall ++ x₁ ++ x₂ ++
      r.replies.entries.flatMap (putReply now)).drop magic.length) = some (image t now r) := by
    obtain ⟨m₁, hm₁, he₁⟩ := hx₁ (x₂ ++ (r.replies.entries.flatMap (putReply now) ++ []))
    obtain ⟨m₂, hm₂, he₂⟩ := hx₂ (r.replies.entries.flatMap (putReply now) ++ [])
    obtain ⟨m₃, hm₃, he₃⟩ := hx₃ []
    simp only [putHeader, List.append_assoc, List.drop_left]
    unfold readBody
    rw [number_append hw]
    simp only [Option.bind_eq_bind, Option.bind_some, ht]
    rw [number_append (by omega)]
    simp only [Option.bind_some]
    rw [number_append (by omega)]
    simp only [Option.bind_some]
    rw [number_append (by omega)]
    simp only [Option.bind_some]
    rw [if_neg (by omega)]
    rw [List.append_nil] at hm₁ hm₂ hm₃
    simp only [OrdMap.size, hm₁, hm₂, hm₃, Option.bind_some]
    have hh : m₁ = (image t now r).hosts := OrdMap.ext_entries he₁
    have hs : m₂ = (image t now r).services := OrdMap.ext_entries he₂
    have hp : m₃ = (image t now r).replies := OrdMap.ext_entries he₃
    subst hh hs hp
    simp [image]
  generalize hB : putHeader r wall ++ x₁ ++ x₂ ++ r.replies.entries.flatMap (putReply now) = B at *
  have hsha := (c.sha1 B).2
  have hmagic : magic.length = 11 := by decide
  have hBlen : 25 ≤ B.length := by
    rw [← hB]
    simp only [putHeader, List.length_append, length_toBe, hmagic]
    omega
  have hstart : (B ++ (c.sha1 B).1).take magic.length = magic := by
    rw [← hB]
    simp [putHeader]
  have htotal : (B ++ (c.sha1 B).1).length = B.length + 20 := by rw [List.length_append, hsha]
  have hn : (B ++ (c.sha1 B).1).length - 20 = B.length := by omega
  unfold decode
  rw [if_neg (by rw [hstart]; simp only [ne_eq, not_true_eq_false, or_false]; omega)]
  simp only [Option.bind_eq_bind, hn, List.take_left, List.drop_left, ne_eq, not_true_eq_false,
    if_false, hbody, Option.bind_some, checkBounds_image, hr.bounds, Bool.true_eq_false]
  rfl

/-! ## What a reader accepts -/

/-- A name that is read is not the root. -/
theorem readName_ok {b b' : Bytes} {n : Name} (h : readName b = some (n, b')) : n.labels ≠ [] := by
  simp only [readName, Option.bind_eq_bind, Option.bind_eq_some_iff, Option.bind_none,
    Option.ite_none_left_eq_some, Option.pure_def, Option.some.injEq, Prod.mk.injEq,
    Prod.exists] at h
  obtain ⟨_, _, -, -, _, _, -, labels, -, hne, name, hname, rfl, -⟩ := h
  rw [Name.fromLabels_eq_some hname]
  exact hne

/-- A key that is read has the length of its algorithm. The reader compares the length that was
written with it. -/
theorem readKey_ok {c : Crypto} {b b' : Bytes} {k : Key}
    (h : readKey c b = some (k, b')) : k.Ok := by
  simp only [readKey, Option.bind_eq_bind, Option.bind_eq_some_iff, Option.bind_none,
    Option.ite_none_left_eq_some, Option.pure_def, Option.some.injEq, Prod.mk.injEq,
    Prod.exists] at h
  obtain ⟨_, _, -, protocol, _, -, algorithm, _, -, len, _, -, size, hsize, hok, bytes, _, htake, -,
    rfl, -⟩ := h
  have hprotocol : protocol = 3 := by_contra fun hp => hok (.inl hp)
  have hlen : len = size := by_contra fun hp => hok (.inr hp)
  unfold take at htake
  obtain ⟨hle, htake⟩ := Option.ite_none_right_eq_some.1 htake
  obtain ⟨rfl, -⟩ := Prod.mk.inj (Option.some.inj htake)
  refine ⟨by rw [hprotocol]; rfl, ?_⟩
  rw [hsize, List.length_take, Nat.min_eq_left hle, hlen]

/-- A record of class IN that is read has data of its type. The record was read by the parser of
messages, whose results are well formed. -/
theorem readRecord_ok {b b' : Bytes} {r : Record} (h : readRecord b = some (r, b'))
    (hcls : r.cls = 1) : Fits r.kind r.data := by
  simp only [readRecord, Option.bind_eq_bind, Option.bind_eq_some_iff, Option.bind_none,
    Option.ite_none_left_eq_some, Prod.exists] at h
  obtain ⟨_, _, -, -, wire, _, -, m, hm, h⟩ := h
  split at h
  · next r' hr' =>
    obtain ⟨-, h⟩ := Option.ite_none_left_eq_some.1 h
    obtain ⟨rfl, -⟩ := Prod.mk.inj (Option.some.inj h)
    rcases (parse_wellFormed hm).fits r' (by simp [Message.records, hr']) with ⟨-, hd⟩ | ⟨hf, -⟩
    · rcases hd.2 with h | h <;> rw [hcls] at h <;> exact absurd h (by decide)
    · exact hf
  · cases h

/-- As many records are read as were announced, with data of their types. By recursion on their
number. -/
theorem readCount_ok : ∀ {count : Nat} {b b' : Bytes} {rs : List Record},
    readCount count b = some (rs, b') →
    rs.length = count ∧ ∀ r ∈ rs, r.cls = 1 → Fits r.kind r.data
  | 0, b, b', rs, h => by
    obtain ⟨rfl, -⟩ := Prod.mk.inj (Option.some.inj h)
    simp
  | count + 1, b, b', rs, h => by
    simp only [readCount, Option.bind_eq_bind, Option.bind_eq_some_iff, Option.pure_def,
      Option.some.injEq, Prod.mk.injEq, Prod.exists] at h
    obtain ⟨r, _, hr, rest, _, hrest, rfl, -⟩ := h
    obtain ⟨hlen, hfits⟩ := readCount_ok hrest
    refine ⟨by rw [List.length_cons, hlen], fun x hx => ?_⟩
    rcases List.mem_cons.1 hx with rfl | hx
    · exact readRecord_ok hr
    · exact hfits x hx

/-- At most 256 records are read, with data of their types. -/
theorem readRecords_ok {b b' : Bytes} {rs : List Record} (h : readRecords b = some (rs, b')) :
    rs.length ≤ 256 ∧ ∀ r ∈ rs, r.cls = 1 → Fits r.kind r.data := by
  simp only [readRecords, Option.bind_eq_bind, Option.bind_eq_some_iff,
    Option.ite_none_left_eq_some, Prod.exists] at h
  obtain ⟨count, _, -, hle, hcount⟩ := h
  obtain ⟨hlen, hfits⟩ := readCount_ok hcount
  exact ⟨by omega, hfits⟩

/-- A longer lease ends no earlier. -/
theorem Restart.deadline_mono (t : Restart) {a b : Nat} (h : a ≤ b) :
    t.deadline a ≤ t.deadline b := by
  unfold Restart.deadline
  split
  · exact Nat.zero_le _
  · rw [if_neg (by omega)]
    exact satAdd_mono (by omega)

/-- A lease ends no later than its length after the restart. -/
theorem Restart.deadline_le (t : Restart) (a : Nat) : t.deadline a ≤ t.now + a := by
  unfold Restart.deadline
  split
  · exact Nat.zero_le _
  · exact (satAdd_le _ _).trans (by omega)

/-- Leases that are read end in order, and no later than leases may end. -/
theorem readLeases_ok {t : Restart} {b b' : Bytes} {expires keyExpires : Nat} {receivedAt : Int}
    (h : readLeases t b = some ((expires, keyExpires, receivedAt), b')) :
    LeasesOk t.now expires keyExpires := by
  simp only [readLeases, Option.bind_eq_bind, Option.bind_eq_some_iff, Option.bind_none,
    Option.ite_none_left_eq_some, Option.pure_def, Option.some.injEq, Prod.mk.injEq,
    Prod.exists] at h
  obtain ⟨lease, _, -, keyLease, _, -, hle, _, _, -, ⟨rfl, rfl, -⟩, -⟩ := h
  refine ⟨t.deadline_mono (by omega), (t.deadline_le keyLease).trans ?_⟩
  omega

/-- A host that is read is in order. The leases and the addresses were checked by the reader, and
the key by `readKey_ok`. -/
theorem readHost_ok {c : Crypto} {t : Restart} {b b' : Bytes} {n : Name} {h : Host}
    (hread : readHost c t b = some ((n, h), b')) : HostOk t.now n h := by
  simp only [readHost, Option.bind_eq_bind, Option.bind_eq_some_iff, Option.bind_none,
    Option.ite_none_left_eq_some, Option.pure_def, Option.some.injEq, Prod.mk.injEq,
    Prod.exists] at hread
  obtain ⟨name, _, hname, key, _, hkey, expires, keyExpires, receivedAt, _, hleases, addresses, _,
    haddresses, hall, ⟨rfl, rfl⟩, -⟩ := hread
  obtain ⟨hcount, hfits⟩ := readRecords_ok haddresses
  simp only [Bool.not_eq_false, List.all_eq_true, addressOk, Bool.and_eq_true, beq_iff_eq] at hall
  refine ⟨readName_ok hname, readKey_ok hkey, readLeases_ok hleases, fun r hr => ?_, hcount⟩
  obtain ⟨⟨hn, hk⟩, hcls⟩ := hall r hr
  exact ⟨hn, List.contains_iff_mem.1 hk, hcls, hfits r hr hcls⟩

/-- A service that is read is in order. Every clause is a check that the reader has made. -/
theorem readService_ok {c : Crypto} {t : Restart} {b b' : Bytes} {n : Name} {s : Service}
    (hread : readService c t b = some ((n, s), b')) : ServiceOk t.now n s := by
  simp only [readService, Option.bind_eq_bind, Option.bind_eq_some_iff, Option.bind_none,
    Option.ite_none_left_eq_some, Option.pure_def, Option.some.injEq, Prod.mk.injEq,
    Prod.exists] at hread
  obtain ⟨name, _, hname, host, _, hhost, key, _, hkey, expires, keyExpires, receivedAt, _, hleases,
    records, _, hrecords, discovery, _, hdiscovery, hall, ⟨rfl, rfl⟩, -⟩ := hread
  obtain ⟨hcount, hfits⟩ := readRecords_ok hrecords
  obtain ⟨hcount', hfits'⟩ := readRecords_ok hdiscovery
  simp only [not_or, Bool.not_eq_false, List.all_eq_true, serviceRecordOk, discoveryOk,
    Bool.and_eq_true, beq_iff_eq] at hall
  refine ⟨readName_ok hname, readName_ok hhost, readKey_ok hkey, readLeases_ok hleases,
    ⟨fun r hr => ?_, fun r hr p w q target hd => ?_, fun r hr => ?_, hcount, hcount'⟩⟩
  · obtain ⟨⟨⟨hn, hcls⟩, hk⟩, -⟩ := hall.1 r hr
    exact ⟨hn, List.contains_iff_mem.1 hk, hcls, hfits r hr hcls⟩
  · have := (hall.1 r hr).2
    rw [hd] at this
    exact this
  · obtain ⟨⟨hk, hcls⟩, hd⟩ := hall.2 r hr
    exact ⟨hk, hcls, hd, hfits' r hr hcls⟩

/-- Every entry that is read was there or comes from the reader of one entry. By recursion on the
number of entries. -/
theorem readEntries_ok {K V : Type} [OrdKey K] {read : Bytes → Option ((K × V) × Bytes)}
    {P : K → V → Prop} (hP : ∀ b b' k v, read b = some ((k, v), b') → P k v)
    (hcongr : ∀ k k' v, SameKey k k' → P k v → P k' v) :
    ∀ {count : Nat} {m m' : OrdMap K V} {b b' : Bytes}, (∀ e ∈ m.entries, P e.1 e.2) →
    readEntries read count m b = some (m', b') → ∀ e ∈ m'.entries, P e.1 e.2
  | 0, m, m', b, b', hm, h => by
    obtain ⟨rfl, -⟩ := Prod.mk.inj (Option.some.inj h)
    exact hm
  | count + 1, m, m', b, b', hm, h => by
    simp only [readEntries, Option.bind_eq_bind, Option.bind_eq_some_iff, Prod.exists] at h
    obtain ⟨k, v, b₁, hread, m₁, hfresh, hrest⟩ := h
    obtain ⟨-, hinsert⟩ := Option.ite_none_left_eq_some.1 hfresh
    obtain rfl := Option.some.inj hinsert
    refine readEntries_ok hP hcongr (fun e he => ?_) hrest
    rcases OrdMap.mem_entries_insert he with ⟨he, -⟩ | ⟨hk, hv⟩
    · exact hm e he
    · rw [hv]
      exact hcongr _ _ v hk.symm (hP _ _ _ _ hread)

end Journal

end SnacMachine.Srp
