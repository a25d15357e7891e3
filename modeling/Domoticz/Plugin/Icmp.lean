import Domoticz.Plugin.Python

/-!
# ICMP messages

`ProcessInbound` of `CPluginProtocolICMP`, for the bytes of one datagram.  The headers are
read through pointers into the buffer, so every byte of them is read with a check here, and
the data is cut out with `substr`, which throws if it is to start behind the end.

## Main definitions

* `ipv4_header.header_length`, ..., `icmp_header.type`, ... — the fields of the two headers.
* `ProcessInbound` — the dictionary that is delivered.
* `Datagram` — an IPv4 datagram with a whole ICMP header.
* `Right` — the dictionary has the fields and the data of the datagram.

## Main results

* `right_iff_aligned` — for which datagrams it has.
-/

namespace Domoticz.Icmp

open CLib

/-! ### Headers -/

/-- `decode(i, j)` of the header at `h`. -/
def decode (b : Bytes) (h i j : ℕ) : Option ℕ :=
  b[h + i]?.bind fun x => b[h + j]?.map fun y => x.toNat * 256 + y.toNat

namespace ipv4_header

variable (b : Bytes) (h : ℕ)

/-- `ipv4_header::version`. -/
def version : Option ℕ := b[h + 0]?.map fun x : UInt8 => (x >>> 4 &&& 0xF).toNat

/-- `ipv4_header::header_length`, in bytes. -/
def header_length : Option ℕ := b[h + 0]?.map fun x : UInt8 => (x &&& 0xF).toNat * 4

/-- `ipv4_header::type_of_service`. -/
def type_of_service : Option ℕ := b[h + 1]?.map UInt8.toNat

/-- `ipv4_header::total_length`. -/
def total_length : Option ℕ := decode b h 2 3

/-- `ipv4_header::identification`. -/
def identification : Option ℕ := decode b h 4 5

/-- `ipv4_header::time_to_live`. -/
def time_to_live : Option ℕ := b[h + 8]?.map UInt8.toNat

/-- `ipv4_header::protocol`. -/
def protocol : Option ℕ := b[h + 9]?.map UInt8.toNat

/-- `ipv4_header::header_checksum`. -/
def header_checksum : Option ℕ := decode b h 10 11

/-- `to_string()` of the address in the four bytes from `i`. -/
def address (i : ℕ) : Option PyStr := do
  let octet (k : ℕ) : Option String := b[h + (i + k)]?.map fun x => toString x.toNat
  return pyStr (".".intercalate [← octet 0, ← octet 1, ← octet 2, ← octet 3])

/-- `ipv4_header::source_address`, in dotted numbers. -/
def source_address : Option PyStr := address b h 12

/-- `ipv4_header::destination_address`, in dotted numbers. -/
def destination_address : Option PyStr := address b h 16

end ipv4_header

namespace icmp_header

variable (b : Bytes) (h : ℕ)

/-- `icmp_header::type`. -/
def type : Option ℕ := b[h + 0]?.map UInt8.toNat

/-- `icmp_header::code`. -/
def code : Option ℕ := b[h + 1]?.map UInt8.toNat

/-- `icmp_header::checksum`. -/
def checksum : Option ℕ := decode b h 2 3

/-- `icmp_header::identifier`. -/
def identifier : Option ℕ := decode b h 4 5

/-- `icmp_header::sequence_number`. -/
def sequence_number : Option ℕ := decode b h 6 7

/-- `icmp_header::echo_reply`. -/
def echo_reply : ℕ := 0

/-- `icmp_header::destination_unreachable`. -/
def destination_unreachable : ℕ := 3

/-- `icmp_header::time_exceeded`. -/
def time_exceeded : ℕ := 11

/-- `sizeof(icmp_header)`. -/
def size : ℕ := 8

end icmp_header

/-! ### Dictionaries -/

/-- `Py_BuildValue` of an integer; the formats `b`, `h` and `i` all take an `int`. -/
def integer (n : ℕ) : PyObject := .int n

/-- The entry `IPv4`, of the header at `h`. -/
def ipv4Dict (b : Bytes) (h : ℕ) : Option PyDict := do
  return [
    (pyStr "Source", .str (← ipv4_header.source_address b h)),
    (pyStr "Destination", .str (← ipv4_header.destination_address b h)),
    (pyStr "Version", integer (← ipv4_header.version b h)),
    (pyStr "Protocol", integer (← ipv4_header.protocol b h)),
    (pyStr "TypeOfService", integer (← ipv4_header.type_of_service b h)),
    (pyStr "HeaderLength", integer (← ipv4_header.header_length b h)),
    (pyStr "TotalLength", integer (← ipv4_header.total_length b h)),
    (pyStr "Identification", integer (← ipv4_header.identification b h)),
    (pyStr "HeaderChecksum", integer (← ipv4_header.header_checksum b h)),
    (pyStr "TimeToLive", integer (← ipv4_header.time_to_live b h))]

/-- The entry `ICMP`, of the header at `h`. -/
def icmpDict (b : Bytes) (h : ℕ) : Option PyDict := do
  return [
    (pyStr "Type", integer (← icmp_header.type b h)),
    (pyStr "Code", integer (← icmp_header.code b h)),
    (pyStr "Checksum", integer (← icmp_header.checksum b h)),
    (pyStr "Identifier", integer (← icmp_header.identifier b h)),
    (pyStr "SequenceNumber", integer (← icmp_header.sequence_number b h))]

/-- The `Description` of a type. -/
def description (type : ℕ) : PyStr :=
  if type = icmp_header.echo_reply then pyStr "echo_reply"
  else if type = icmp_header.destination_unreachable then pyStr "destination_unreachable"
  else if type = icmp_header.time_exceeded then pyStr "time_exceeded"
  else pyStr "unknown"

/-- The entry `ElapsedMs`, if there is one. -/
def elapsed (m_ElapsedMs : ℤ) (type : ℕ) : PyDict :=
  if type = icmp_header.echo_reply ∧ 0 ≤ m_ElapsedMs then [(pyStr "ElapsedMs", .int m_ElapsedMs)]
  else []

/-- The entries of the dictionary, in the order they are set. -/
def message (m_ElapsedMs : ℤ) (ipv4 icmp : PyDict) (type : ℕ) (sData : Bytes) : PyDict :=
  [(pyStr "IPv4", .dict ipv4), (pyStr "ICMP", .dict icmp)] ++ elapsed m_ElapsedMs type ++
    [(pyStr "Status", integer type), (pyStr "Description", .str (description type)),
      (pyStr "Data", .bytes sData)]

/-! ### The protocol -/

/-- What may happen instead of a message. -/
inductive Failure
  /-- A byte outside the buffer is read. -/
  | outside
  /-- The exception of `substr`. -/
  | outOfRange
  deriving DecidableEq, Repr

/-- `sData.substr(pos, n)`; a negative `n` is converted to a size beyond that of any string. -/
def substr (sData : Bytes) (pos : ℕ) (n : ℤ) : Except Failure Bytes :=
  if pos ≤ sData.length then
    .ok (if n < 0 then sData.drop pos else (sData.drop pos).take n.toNat)
  else .error .outOfRange

/-- A read of the buffer. -/
def read {α : Type} (value : Option α) : Except Failure α :=
  match value with
  | some a => .ok a
  | none => .error .outside

/-- What the headers are followed by, in the code: the ICMP header is taken to be at 20. -/
def iDataOffset (b : Bytes) : Except Failure ℕ := do
  let header_length ← read (ipv4_header.header_length b 0)
  let type ← read (icmp_header.type b 20)
  if type = icmp_header.destination_unreachable then
    let inner ← read (ipv4_header.header_length b (20 + icmp_header.size))
    return header_length + icmp_header.size + (inner + icmp_header.size)
  else
    return header_length + icmp_header.size

/-- `ProcessInbound`: the dictionary for `onMessage`. -/
def ProcessInbound (m_ElapsedMs : ℤ) (b : Bytes) : Except Failure PyDict := do
  if b.isEmpty then
    return [(pyStr "Status", integer icmp_header.time_exceeded),
      (pyStr "Description", .str (pyStr "time_exceeded")), (pyStr "Data", .bytes [])]
  else
    let ipv4 ← read (ipv4Dict b 0)
    let icmp ← read (icmpDict b 20)
    let type ← read (icmp_header.type b 20)
    let iTotalData ← read (ipv4_header.total_length b 0)
    let offset ← iDataOffset b
    let sData ← substr b offset ((iTotalData : ℤ) - offset)
    return message m_ElapsedMs ipv4 icmp type sData

/-! ### Datagrams -/

/-- An IPv4 datagram that has a whole ICMP header. -/
structure Datagram where
  bytes : Bytes
  header : ℕ
  total : ℕ
  isVersion4 : ipv4_header.version bytes 0 = some 4
  header_eq : ipv4_header.header_length bytes 0 = some header
  total_eq : ipv4_header.total_length bytes 0 = some total
  twenty_le : 20 ≤ header
  whole : header + icmp_header.size ≤ bytes.length

namespace Datagram

variable (p : Datagram)

/-- The end of the headers, if the ICMP header is at `k`. -/
def dataFrom (k : ℕ) : ℕ :=
  p.header + icmp_header.size +
    if icmp_header.type p.bytes k = some icmp_header.destination_unreachable then
      (ipv4_header.header_length p.bytes (k + icmp_header.size)).getD 0 + icmp_header.size
    else 0

/-- The bytes from the end of the headers, up to the total length and the length received. -/
def payload : Bytes := (p.bytes.take p.total).drop (p.dataFrom p.header)

/-- What `substr` gives for the data from `k`. -/
def cut (k : ℕ) : Bytes :=
  if p.total < k then p.bytes.drop k else (p.bytes.drop k).take (p.total - k)

end Datagram

/-- A dictionary is delivered, with the fields of the ICMP header and with the data. -/
def Right (m_ElapsedMs : ℤ) (p : Datagram) : Prop :=
  ∃ d icmp, ProcessInbound m_ElapsedMs p.bytes = .ok d ∧
    d.lookup (pyStr "ICMP") = some (.dict icmp) ∧ icmpDict p.bytes p.header = some icmp ∧
      d.lookup (pyStr "Data") = some (.bytes p.payload)

/-- The places where the code reads have what the places in the datagram have. -/
structure Aligned (p : Datagram) : Prop where
  header : ∀ i < icmp_header.size, p.bytes[20 + i]? = p.bytes[p.header + i]?
  inside : p.dataFrom 20 ≤ p.bytes.length
  ends : p.dataFrom 20 = p.dataFrom p.header →
    p.dataFrom 20 ≤ p.total ∨ p.dataFrom 20 = p.bytes.length
  coincides : p.dataFrom 20 ≠ p.dataFrom p.header → p.cut (p.dataFrom 20) = p.payload

/-! ### What is read -/

theorem ok_bind {ε α β : Type} (a : α) (f : α → Except ε β) : (.ok a >>= f) = f a := rfl

theorem exists_decode {b : Bytes} {h i j : ℕ} (hi : h + i < b.length) (hj : h + j < b.length) :
    ∃ n, decode b h i j = some n := by
  rw [decode, List.getElem?_eq_getElem hi, List.getElem?_eq_getElem hj]
  exact ⟨_, rfl⟩

/-- Two bytes are determined by their number. -/
theorem decode_inj {b : Bytes} {h h' i j n : ℕ} (hn : decode b h i j = some n)
    (hn' : decode b h' i j = some n) : b[h + i]? = b[h' + i]? ∧ b[h + j]? = b[h' + j]? := by
  obtain ⟨x, hx, hmap⟩ := Option.bind_eq_some_iff.mp hn
  obtain ⟨y, hy, heq⟩ := Option.map_eq_some_iff.mp hmap
  obtain ⟨x', hx', hmap'⟩ := Option.bind_eq_some_iff.mp hn'
  obtain ⟨y', hy', heq'⟩ := Option.map_eq_some_iff.mp hmap'
  have hlt := y.toNat_lt
  have hlt' := y'.toNat_lt
  have hfirst : x = x' := UInt8.toNat_inj.mp (by omega)
  have hsecond : y = y' := UInt8.toNat_inj.mp (by omega)
  rw [hx, hx', hy, hy', hfirst, hsecond]
  exact ⟨rfl, rfl⟩

theorem map_toNat_inj {o o' : Option UInt8} (h : o.map UInt8.toNat = o'.map UInt8.toNat) :
    o = o' :=
  Option.map_injective (fun _ _ => UInt8.toNat_inj.mp) h

theorem exists_ipv4Dict {b : Bytes} {h : ℕ} (hb : h + 20 ≤ b.length) :
    ∃ d, ipv4Dict b h = some d := by
  simp (disch := omega) only [ipv4Dict, ipv4_header.source_address,
    ipv4_header.destination_address, ipv4_header.address, ipv4_header.version,
    ipv4_header.protocol, ipv4_header.type_of_service, ipv4_header.header_length,
    ipv4_header.total_length, ipv4_header.identification, ipv4_header.header_checksum,
    ipv4_header.time_to_live, decode, List.getElem?_eq_getElem, Option.map_some,
    Option.bind_some, Option.bind_eq_bind, Option.pure_def]
  exact ⟨_, rfl⟩

theorem icmpDict_eq_some_iff {b : Bytes} {h : ℕ} {d : PyDict} : icmpDict b h = some d ↔
    ∃ type code checksum identifier sequence_number,
      icmp_header.type b h = some type ∧ icmp_header.code b h = some code ∧
      icmp_header.checksum b h = some checksum ∧ icmp_header.identifier b h = some identifier ∧
      icmp_header.sequence_number b h = some sequence_number ∧
      d = [(pyStr "Type", integer type), (pyStr "Code", integer code),
        (pyStr "Checksum", integer checksum), (pyStr "Identifier", integer identifier),
        (pyStr "SequenceNumber", integer sequence_number)] := by
  simp only [icmpDict, Option.bind_eq_bind, Option.pure_def, Option.bind_eq_some_iff,
    Option.some.injEq, exists_and_left, eq_comm (a := d)]

theorem exists_icmpDict {b : Bytes} {h : ℕ} (hb : h + icmp_header.size ≤ b.length) :
    ∃ d, icmpDict b h = some d := by
  have hbyte {i : ℕ} (hi : i < icmp_header.size) : h + i < b.length := by omega
  have hfield {i : ℕ} (hi : i < icmp_header.size) : ∃ n, b[h + i]?.map UInt8.toNat = some n := by
    rw [List.getElem?_eq_getElem (hbyte hi)]
    exact ⟨_, rfl⟩
  obtain ⟨type, htype⟩ := hfield (i := 0) (by decide)
  obtain ⟨code, hcode⟩ := hfield (i := 1) (by decide)
  obtain ⟨checksum, hchecksum⟩ :=
    exists_decode (hbyte (i := 2) (by decide)) (hbyte (i := 3) (by decide))
  obtain ⟨identifier, hidentifier⟩ :=
    exists_decode (hbyte (i := 4) (by decide)) (hbyte (i := 5) (by decide))
  obtain ⟨sequence_number, hsequence⟩ :=
    exists_decode (hbyte (i := 6) (by decide)) (hbyte (i := 7) (by decide))
  exact ⟨_, icmpDict_eq_some_iff.mpr
    ⟨type, code, checksum, identifier, sequence_number, htype, hcode, hchecksum, hidentifier,
      hsequence, rfl⟩⟩

/-- The fields of a header determine its bytes. -/
theorem icmpDict_eq_iff {b : Bytes} {h h' : ℕ} (hb : h + icmp_header.size ≤ b.length) :
    icmpDict b h' = icmpDict b h ↔ ∀ i < icmp_header.size, b[h' + i]? = b[h + i]? := by
  constructor
  · intro heq
    obtain ⟨d, hd⟩ := exists_icmpDict hb
    rw [hd] at heq
    obtain ⟨type, code, checksum, identifier, sequence, h₀, h₁, h₂, h₄, h₆, rfl⟩ :=
      icmpDict_eq_some_iff.mp hd
    obtain ⟨type', code', checksum', identifier', sequence', h₀', h₁', h₂', h₄', h₆', hentries⟩ :=
      icmpDict_eq_some_iff.mp heq
    simp only [List.cons.injEq, Prod.mk.injEq, integer, PyObject.int.injEq, Nat.cast_inj, true_and,
      and_true] at hentries
    obtain ⟨rfl, rfl, rfl, rfl, rfl⟩ := hentries
    obtain ⟨hthird, hfourth⟩ := decode_inj h₂' h₂
    obtain ⟨hfifth, hsixth⟩ := decode_inj h₄' h₄
    obtain ⟨hseventh, heighth⟩ := decode_inj h₆' h₆
    intro i hi
    match i with
    | 0 => exact map_toNat_inj (h₀'.trans h₀.symm)
    | 1 => exact map_toNat_inj (h₁'.trans h₁.symm)
    | 2 => exact hthird
    | 3 => exact hfourth
    | 4 => exact hfifth
    | 5 => exact hsixth
    | 6 => exact hseventh
    | 7 => exact heighth
    | i + 8 => exact absurd hi (Nat.not_lt.mpr (Nat.le_add_left 8 i))
  · intro hbytes
    have hbyte (i : ℕ) (hi : i < 8) : b[h' + i]? = b[h + i]? := hbytes i hi
    simp only [icmpDict, icmp_header.type, icmp_header.code, icmp_header.checksum,
      icmp_header.identifier, icmp_header.sequence_number, decode, hbyte 0 (by decide),
      hbyte 1 (by decide), hbyte 2 (by decide), hbyte 3 (by decide), hbyte 4 (by decide),
      hbyte 5 (by decide), hbyte 6 (by decide), hbyte 7 (by decide)]

/-! ### What is delivered -/

theorem message_ICMP (m_ElapsedMs : ℤ) (ipv4 icmp : PyDict) (type : ℕ) (sData : Bytes) :
    (message m_ElapsedMs ipv4 icmp type sData).lookup (pyStr "ICMP") = some (.dict icmp) := rfl

theorem message_Data (m_ElapsedMs : ℤ) (ipv4 icmp : PyDict) (type : ℕ) (sData : Bytes) :
    (message m_ElapsedMs ipv4 icmp type sData).lookup (pyStr "Data") = some (.bytes sData) := by
  unfold message elapsed
  split <;> rfl

section Delivered

variable (p : Datagram)

theorem twentyEight_le : 20 + icmp_header.size ≤ p.bytes.length :=
  (Nat.add_le_add_right p.twenty_le _).trans p.whole

theorem bytes_ne_nil : p.bytes.isEmpty = false := by
  have hlength := twentyEight_le p
  cases hb : p.bytes with
  | nil =>
    rw [hb] at hlength
    cases hlength
  | cons b rest => rfl

/-- The code goes on with the offset it finds, or does not find one and would be outside. -/
theorem iDataOffset_cases : iDataOffset p.bytes = .ok (p.dataFrom 20) ∨
    iDataOffset p.bytes = .error .outside ∧ p.bytes.length < p.dataFrom 20 := by
  have hlength := twentyEight_le p
  obtain ⟨d, hd⟩ := exists_icmpDict hlength
  obtain ⟨type, -, -, -, -, htype, -⟩ := icmpDict_eq_some_iff.mp hd
  have hsize : icmp_header.size = 8 := rfl
  simp only [iDataOffset, Datagram.dataFrom, p.header_eq, htype, read, ok_bind, Option.some.injEq]
  by_cases hun : type = icmp_header.destination_unreachable
  · rw [if_pos hun, if_pos hun]
    cases hinner : ipv4_header.header_length p.bytes (20 + icmp_header.size) with
    | some inner => exact .inl rfl
    | none =>
      -- byte 28 is not there, and the end of the headers is beyond it
      have hbeyond : p.bytes.length ≤ 20 + icmp_header.size + 0 :=
        List.getElem?_eq_none_iff.mp (Option.map_eq_none_iff.mp hinner)
      have htwenty := p.twenty_le
      exact .inr ⟨rfl, by omega⟩
  · rw [if_neg hun, if_neg hun]
    exact .inl rfl

theorem substr_of_le {k : ℕ} (h : k ≤ p.bytes.length) :
    substr p.bytes k ((p.total : ℤ) - k) = .ok (p.cut k) := by
  rw [substr, if_pos h, Datagram.cut]
  by_cases htotal : p.total < k
  · rw [if_pos htotal, if_pos (by omega)]
  · rw [if_neg htotal, if_neg (by omega)]
    congr 3
    omega

/-- Something is delivered if the code's offset is inside, and then the data is that from it. -/
theorem ProcessInbound_ok_iff {m_ElapsedMs : ℤ} {d : PyDict} :
    ProcessInbound m_ElapsedMs p.bytes = .ok d ↔ p.dataFrom 20 ≤ p.bytes.length ∧
      ∃ ipv4 icmp type, ipv4Dict p.bytes 0 = some ipv4 ∧ icmpDict p.bytes 20 = some icmp ∧
        icmp_header.type p.bytes 20 = some type ∧
        d = message m_ElapsedMs ipv4 icmp type (p.cut (p.dataFrom 20)) := by
  have hlength := twentyEight_le p
  obtain ⟨ipv4, hipv4⟩ := exists_ipv4Dict (b := p.bytes) (h := 0) (by omega)
  obtain ⟨icmp, hicmp⟩ := exists_icmpDict hlength
  obtain ⟨type, -, -, -, -, htype, -⟩ := icmpDict_eq_some_iff.mp hicmp
  simp only [ProcessInbound, bytes_ne_nil, hipv4, hicmp, htype, p.total_eq, read, ok_bind,
    Bool.false_eq_true, if_false]
  rcases iDataOffset_cases p with hok | ⟨herror, hbeyond⟩
  · rw [hok, ok_bind]
    by_cases hinside : p.dataFrom 20 ≤ p.bytes.length
    · rw [substr_of_le p hinside, ok_bind]
      constructor
      · intro h
        exact ⟨hinside, ipv4, icmp, type, rfl, rfl, rfl, (Except.ok.inj h).symm⟩
      · rintro ⟨-, _, _, _, h₁, h₂, h₃, rfl⟩
        cases h₁
        cases h₂
        cases h₃
        rfl
    · rw [substr, if_neg hinside]
      exact iff_of_false (fun h => by cases h) (fun h => hinside h.1)
  · rw [herror]
    exact iff_of_false (fun h => by cases h) (fun h => absurd h.1 (Nat.not_le.mpr hbeyond))

/-- What is right, by where the code reads and where the datagram has it. -/
theorem right_iff_read {m_ElapsedMs : ℤ} : Right m_ElapsedMs p ↔
    p.dataFrom 20 ≤ p.bytes.length ∧ icmpDict p.bytes 20 = icmpDict p.bytes p.header ∧
      p.cut (p.dataFrom 20) = p.payload := by
  constructor
  · rintro ⟨d, icmp, hd, hICMP, hheader, hData⟩
    obtain ⟨hinside, ipv4, icmp', type, -, hicmp, -, rfl⟩ := (ProcessInbound_ok_iff p).mp hd
    rw [message_ICMP] at hICMP
    rw [message_Data] at hData
    cases hICMP
    exact ⟨hinside, hicmp.trans hheader.symm, PyObject.bytes.inj (Option.some.inj hData)⟩
  · rintro ⟨hinside, hicmp, hcut⟩
    have hlength := twentyEight_le p
    obtain ⟨ipv4, hipv4⟩ := exists_ipv4Dict (b := p.bytes) (h := 0) (by omega)
    obtain ⟨icmp, hd⟩ := exists_icmpDict hlength
    obtain ⟨type, -, -, -, -, htype, -⟩ := icmpDict_eq_some_iff.mp hd
    refine ⟨_, icmp, (ProcessInbound_ok_iff p).mpr ⟨hinside, ipv4, icmp, type, hipv4, hd, htype,
      rfl⟩, message_ICMP _ _ _ _ _, hicmp ▸ hd, ?_⟩
    rw [message_Data, hcut]

/-- From where the headers end, the data is right if it does not go beyond the total length. -/
theorem cut_eq_payload_iff (hinside : p.dataFrom p.header ≤ p.bytes.length) :
    p.cut (p.dataFrom p.header) = p.payload ↔
      p.dataFrom p.header ≤ p.total ∨ p.dataFrom p.header = p.bytes.length := by
  rw [Datagram.cut, Datagram.payload]
  by_cases htotal : p.total < p.dataFrom p.header
  · have hnone : (p.bytes.take p.total).drop (p.dataFrom p.header) = [] :=
      List.drop_eq_nil_of_le ((List.length_take_le _ _).trans htotal.le)
    rw [if_pos htotal, hnone, List.drop_eq_nil_iff]
    omega
  · rw [if_neg htotal, List.drop_take]
    exact iff_of_true rfl (.inl (Nat.not_lt.mp htotal))

/-- The fields and the data are those of the datagram if and only if it is aligned. -/
theorem right_iff_aligned (m_ElapsedMs : ℤ) : Right m_ElapsedMs p ↔ Aligned p := by
  rw [right_iff_read, icmpDict_eq_iff p.whole]
  constructor
  · rintro ⟨hinside, hheader, hcut⟩
    refine ⟨hheader, hinside, fun heq => ?_, fun _ => hcut⟩
    rw [heq] at hinside hcut ⊢
    exact (cut_eq_payload_iff p hinside).mp hcut
  · intro h
    refine ⟨h.inside, h.header, ?_⟩
    by_cases heq : p.dataFrom 20 = p.dataFrom p.header
    · have hinside := h.inside
      have hends := h.ends heq
      rw [heq] at hinside hends ⊢
      exact (cut_eq_payload_iff p hinside).mpr hends
    · exact h.coincides heq

end Delivered

/-- An echo reply whose IPv4 header has one word of options. -/
def withOptions : Datagram where
  bytes := [0x46, 0, 0, 32, 0, 0, 0, 0, 64, 1, 0, 0, 10, 0, 0, 1, 10, 0, 0, 2, 1, 1, 1, 1,
    0, 0, 0, 0, 0, 0, 0, 0]
  header := 24
  total := 32
  isVersion4 := by decide
  header_eq := by decide
  total_eq := by decide
  twenty_le := by decide
  whole := by decide

/-- The first byte of the options is taken for the type. -/
theorem options_for_header : ¬ ∀ (m_ElapsedMs : ℤ) (p : Datagram), Right m_ElapsedMs p := by
  intro h
  obtain ⟨-, hheader, -⟩ := (right_iff_read withOptions).mp (h 1 withOptions)
  have hfirst : withOptions.bytes[20]? = withOptions.bytes[24]? :=
    (icmpDict_eq_iff withOptions.whole).mp hheader 0 (by decide)
  exact absurd hfirst (by decide)

end Domoticz.Icmp
