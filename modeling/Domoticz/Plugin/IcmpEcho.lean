import Domoticz.CLib.OnesComplement
import Domoticz.Plugin.Icmp

/-!
# Echo requests

What a plugin sends over an ICMP connection is the data of an echo request.  The checksum of the
request is made of the bytes in pairs, folded into sixteen bits, and complemented.

## Main definitions

* `IcmpHeader`, `compute_checksum` — the header, and what is put into it.
* `echoRequest` — `CPluginTransportICMP::handleWrite`.

## Main results

* `fold_spec` — folding keeps a sum up to multiples of 65535.
* `echo_verifies` — **the checksum is right, and it tells when a single byte is changed.**
-/

namespace Domoticz.Icmp

open CLib

/-! ### The code -/

/-- The bytes of an `icmp_header`, by what they mean. -/
structure IcmpHeader where
  type : UInt8 := 0
  code : UInt8 := 0
  checksum : UInt16 := 0
  identifier : UInt16 := 0
  sequence_number : UInt16 := 0

/-- `encode` of a number. -/
def encode (n : UInt16) : Bytes := [UInt8.ofNat (n.toNat / 256), UInt8.ofNat (n.toNat % 256)]

/-- `rep_`. -/
def IcmpHeader.rep (header : IcmpHeader) : Bytes :=
  [header.type, header.code] ++ encode header.checksum ++ encode header.identifier ++
    encode header.sequence_number

/-- What the loop of `compute_checksum` adds. -/
def bodySum : Bytes → ℕ
  | a :: b :: body => a.toNat <<< 8 + b.toNat + bodySum body
  | [a] => a.toNat <<< 8
  | [] => 0

/-- The last three lines of `compute_checksum`, in numbers of 32 bits. -/
def fold (sum : ℕ) : ℕ :=
  let sum := sum >>> 16 + sum % 2 ^ 16
  (sum + sum >>> 16) % 2 ^ 32

/-- `compute_checksum` of `icmp_header.hpp`. -/
def compute_checksum (header : IcmpHeader) (body : Bytes) : IcmpHeader :=
  let sum := (header.type.toNat <<< 8 + header.code.toNat + header.identifier.toNat +
    header.sequence_number.toNat + bodySum body) % 2 ^ 32
  { header with checksum := ~~~ UInt16.ofNat (fold sum) }

/-- The datagram that `CPluginTransportICMP::handleWrite` sends. -/
def echoRequest (pid m_SequenceNo : ℤ) (message : Bytes) : Bytes :=
  let echo_request : IcmpHeader :=
    { type := 8
      code := 0
      identifier := UInt16.ofInt pid
      sequence_number := UInt16.ofInt (m_SequenceNo + 1) }
  (compute_checksum echo_request message).rep ++ message

/-! ### The checksum -/

theorem bodySum_eq (body : Bytes) : bodySum body = wordSum body := by
  induction body using bodySum.induct with
  | case1 a b body ih => rw [bodySum, wordSum, ih, Nat.shiftLeft_eq]
  | case2 a => rw [bodySum, wordSum, Nat.shiftLeft_eq]
  | case3 => rfl

/-- **Folding keeps a sum up to multiples of 65535**, and leaves sixteen bits of it. -/
theorem fold_spec {n : ℕ} (h : n < 2 ^ 32) : fold n % 65536 % 65535 = n % 65535 := by
  rw [fold, Nat.shiftRight_eq_div_pow, Nat.shiftRight_eq_div_pow]
  generalize hs : n / 2 ^ 16 + n % 2 ^ 16 = s
  have hmod : s % 65535 = n % 65535 := by omega
  have hle : s ≤ 131070 := by omega
  -- there is a carry, or there is none
  by_cases hcarry : s < 65536
  · have hzero : s / 2 ^ 16 = 0 := by omega
    rw [hzero]
    omega
  · have hone : s / 2 ^ 16 = 1 := by omega
    rw [hone]
    omega

theorem wordSum_encode (n : UInt16) (s : Bytes) : wordSum (encode n ++ s) = n.toNat + wordSum s := by
  have hn := n.toNat_lt
  have hhigh : (UInt8.ofNat (n.toNat / 256)).toNat = n.toNat / 256 :=
    UInt8.toNat_ofNat_of_lt (by show _ < 256; omega)
  have hlow : (UInt8.ofNat (n.toNat % 256)).toNat = n.toNat % 256 :=
    UInt8.toNat_ofNat_of_lt (by show _ < 256; omega)
  show (UInt8.ofNat (n.toNat / 256)).toNat * 256 + (UInt8.ofNat (n.toNat % 256)).toNat +
    wordSum s = _
  rw [hhigh, hlow]
  omega

theorem wordSum_rep (header : IcmpHeader) (body : Bytes) :
    wordSum (header.rep ++ body) = header.type.toNat * 256 + header.code.toNat +
      header.checksum.toNat + header.identifier.toNat + header.sequence_number.toNat +
        wordSum body := by
  have hsplit : header.rep ++ body = header.type :: header.code :: (encode header.checksum ++
      (encode header.identifier ++ (encode header.sequence_number ++ body))) := by
    simp only [IcmpHeader.rep, List.append_assoc, List.cons_append, List.nil_append]
  rw [hsplit, wordSum, wordSum_encode, wordSum_encode, wordSum_encode]
  omega

/-- What is sent with a checksum adds up to ones. -/
theorem onesSum_checksum {header : IcmpHeader} (htype : header.type ≠ 0) {body : Bytes}
    (h : body.length ≤ 65507) :
    onesSum ((compute_checksum header body).rep ++ body) = 65535 := by
  have hbody := wordSum_le body
  have htype' : 0 < header.type.toNat := by
    rw [Nat.pos_iff_ne_zero]
    exact fun hzero => htype (UInt8.toNat_inj.mp hzero)
  have hlt := header.type.toNat_lt
  have hcode := header.code.toNat_lt
  have hidentifier := header.identifier.toNat_lt
  have hsequence := header.sequence_number.toNat_lt
  rw [onesSum_eq_iff, wordSum_rep]
  dsimp only [compute_checksum]
  rw [bodySum_eq, Nat.shiftLeft_eq]
  have hbound : (body.length + 1) / 2 ≤ 32754 := by omega
  have htotal : header.type.toNat * 2 ^ 8 + header.code.toNat + header.identifier.toNat +
      header.sequence_number.toNat + wordSum body < 2 ^ 32 := by omega
  obtain ⟨n, hn⟩ : ∃ n, n = header.type.toNat * 2 ^ 8 + header.code.toNat +
      header.identifier.toNat + header.sequence_number.toNat + wordSum body := ⟨_, rfl⟩
  rw [← hn] at htotal ⊢
  have hfold := fold_spec htotal
  have hchecksum : (~~~ UInt16.ofNat (fold (n % 2 ^ 32))).toNat = 65535 - fold n % 65536 := by
    rw [Nat.mod_eq_of_lt htotal, UInt16.toNat_not, UInt16.toNat_ofNat']
    rfl
  rw [hchecksum]
  omega

/-- **The checksum of an echo request is right**: the words of the datagram add up to ones, and do
so no more when one of its bytes is changed. -/
theorem echo_verifies (pid m_SequenceNo : ℤ) {message : Bytes} (h : message.length ≤ 65507) :
    onesSum (echoRequest pid m_SequenceNo message) = 65535 ∧
      ∀ (i : ℕ) (a b : UInt8), (echoRequest pid m_SequenceNo message)[i]? = some a → a ≠ b →
        onesSum ((echoRequest pid m_SequenceNo message).set i b) ≠ 65535 := by
  have htype : (8 : UInt8) ≠ 0 := by decide
  have hright : onesSum (echoRequest pid m_SequenceNo message) = 65535 := onesSum_checksum htype h
  exact ⟨hright, fun i a b ha hne => onesSum_set_ne hright ha hne⟩

theorem echo_verifies_hello : onesSum (echoRequest 4711 (-1) (str "hello")) = 65535 :=
  (echo_verifies 4711 (-1) (by decide)).1

end Domoticz.Icmp
