import SnacMachine.Ip.Ra

/-!
# DHCPv6 messages

The embedding of `wire/dhcpv6.rs`: the options of a prefix delegation exchange, their encoding and
what is read of a reply.
-/

namespace SnacMachine.Ip.Dhcp

/-- Reference: `option` (`wire/dhcpv6.rs:2`). -/
def option (code : Nat) (value : Bytes) : Bytes := toBe 2 code ++ toBe 2 value.length ++ value

/-- Reference: `options` (`wire/dhcpv6.rs:8`). -/
def options (b : Bytes) : Except WireError (List (Nat × Bytes)) :=
  if b = [] then .ok []
  else if b.length < 4 then .error .truncated
  else
    let n := u16At b 2
    if n > b.length - 4 then .error .truncated
    else do
      let rest ← options (b.drop (4 + n))
      .ok ((u16At b 0, (b.drop 4).take n) :: rest)
termination_by b.length
decreasing_by
  simp only [List.length_drop]
  omega

/-- Reference: `udp_packet` (`wire/dhcpv6.rs:23`). -/
def udpPacket (source destination : Ipv6Addr) (sport dport : Nat) (body : Bytes) :
    Except WireError Bytes :=
  if body.length + 8 > 65535 then .error .capacity
  else
    let head := toBe 2 sport ++ toBe 2 dport ++ toBe 2 (body.length + 8)
    let sum := checksum6 source destination 17 (head ++ [0, 0] ++ body)
    ipv6Packet source destination 17 1
      (head ++ toBe 2 (if sum = 0 then 65535 else sum) ++ body)

/-- Reference: `udp_payload` (`wire/dhcpv6.rs:40`). -/
def udpPayload (e : Envelope) : Except WireError Bytes := do
  let t ← transport e
  let b := t.bytes
  if t.protocol ≠ 17 ∨ t.fragmented ∨ b.length < 12 ∨ b.take 4 ≠ [2, 35, 2, 34] ∨
      (b.drop 6).take 2 = [0, 0] ∨ u16At b 4 ≠ b.length ∨
      checksum6 e.source e.destination 17 b ≠ 0 then .error .invalid
  else .ok (b.drop 8)

/-- Reference: `Delegation` (`wire/dhcpv6.rs:57`). -/
structure Delegation where
  iaid : Nat
  t1 : Nat
  t2 : Nat
  prefix_ : Prefix
  preferred : Nat
  valid : Nat

/-- Reference: `Message` (`wire/dhcpv6.rs:66`). -/
structure Message where
  kind : UInt8
  xid : Bytes
  client : Bytes
  server : Bytes
  preference : UInt8
  solMaxRt : Option Nat
  status : Nat
  delegations : List Delegation

/-- The value of an option that may occur once. Reference: `single` (`wire/dhcpv6.rs:81`). -/
def single (opts : List (Nat × Bytes)) (code : Nat) : Except WireError (Option Bytes) :=
  match opts.filter fun o => o.1 == code with
  | [] => .ok none
  | [o] => .ok (some o.2)
  | _ => .error .invalid

/-- The prefixes of one association. Reference: `wire/dhcpv6.rs:130`. -/
def delegationsOf (iaid t1 t2 : Nat) :
    List (Nat × Bytes) → List Delegation → Except WireError (List Delegation)
  | [], out => .ok out
  | (_, p) :: nested, out =>
    if p.length < 25 then .error .truncated
    else
      match options (p.drop 25) with
      | .error e => .error e
      | .ok _ =>
        match Prefix.new (octetsAt p 9 16) (octet p 8) with
        | none => delegationsOf iaid t1 t2 nested out
        | some prefix_ =>
          if u32At p 0 > u32At p 4 then delegationsOf iaid t1 t2 nested out
          else if out.length ≥ 16 then .error .capacity
          else delegationsOf iaid t1 t2 nested
            (out ++ [⟨iaid, t1, t2, prefix_, u32At p 0, u32At p 4⟩])

/-- The associations of a message: the status and the prefixes. Reference: the loop of `decode`
(`wire/dhcpv6.rs:104`). -/
def associations : List (Nat × Bytes) → (seen : List Nat) → (status : Nat) → List Delegation →
    Except WireError (Nat × List Delegation)
  | [], _, status, out => .ok (status, out)
  | (_, ia) :: ias, seen, status, out =>
    if ia.length < 12 then .error .truncated
    else
      let iaid := u32At ia 0
      if seen.contains iaid then .error .invalid
      else
        let t1 := u32At ia 4
        let t2 := u32At ia 8
        match options (ia.drop 12) with
        | .error e => .error e
        | .ok nested =>
          if (iaid ≠ 1 ∧ iaid ≠ 2) ∨ (t1 ≠ 0 ∧ t2 ≠ 0 ∧ t1 > t2) then
            associations ias (iaid :: seen) status out
          else
            match nested.find? fun o => o.1 == 13 && decide (2 ≤ o.2.length) &&
              o.2.take 2 != [0, 0] with
            | some o =>
              associations ias (iaid :: seen)
                (if status = 0 ∧ o.2.take 2 = [0, 3] then 3 else status) out
            | none =>
              match delegationsOf iaid t1 t2 (nested.filter fun o => o.1 == 26) out with
              | .error e => .error e
              | .ok out => associations ias (iaid :: seen) status out

/-- Reference: `decode` (`wire/dhcpv6.rs:76`). -/
def decode (b : Bytes) : Except WireError Message :=
  if b.length < 4 then .error .truncated
  else do
    let opts ← options (b.drop 4)
    match (← single opts 1), (← single opts 2) with
    | some client, some server =>
      if server = [] ∨ server.length > 128 ∨ client.length > 128 then .error .invalid
      else do
        let preference := (((← single opts 7).filter fun b => b.length == 1).map
          fun b => octet b 0).getD 0
        let solMaxRt := (((← single opts 82).filter fun b => b.length == 4).map
          fun b => u32At b 0).filter fun n => decide (60 ≤ n ∧ n ≤ 86400)
        let status := (((← single opts 13).filter fun b => decide (2 ≤ b.length)).map
          fun b => u16At b 0).getD 0
        let (status, delegations) ← associations (opts.filter fun o => o.1 == 25) [] status []
        .ok ⟨octet b 0, (b.drop 1).take 3, client, server, preference, solMaxRt,
          status, delegations⟩
    | _, _ => .error .invalid

/-- Reference: `delegation_option` (`wire/dhcpv6.rs:167`). -/
def delegationOption (d : Delegation) : Bytes :=
  option 26 (toBe 4 d.preferred ++ toBe 4 d.valid ++ [d.prefix_.length] ++ d.prefix_.address.1)

end SnacMachine.Ip.Dhcp
