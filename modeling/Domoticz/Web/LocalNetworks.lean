import Domoticz.Web.Network

/-!
# The networks that are local

`AddLocalNetworks` reads the specification of a network: a dotted quad, in which stars stand for
any octet, or an address with a number of bits.  It asks for the position of a star, and of a
slash, by `pos > 0`, which `npos` satisfies: every specification that does not begin with a star
is taken for a quad.  Of an address with a number of bits this leaves the address alone, and what
begins with a star is taken for one without an address.

A quad becomes the interval between two addresses, which is the network only when the stars are
at its end; and the address 0.0.0.0 is in no network, since 0 says that an address could not be
read.

## Main definitions

* `addLocalNetworks` — the network `cWebem::AddLocalNetworks` adds.
* `Spec` — the documented forms of a specification, and what they denote.
* `Spec.Exact` — the ones whose network is what they denote.
* `Unread` — the specifications of another form that add no address.

## Main results

* `admits_octets_iff`, `admits_bits_iff` — the addresses that are admitted for a specification.
* `membership_iff` — **a specification of a documented form means what it denotes exactly if it
  is exact, and another one admits no address exactly if it is unread.**
* `bits_ignored` — `192.168.0.0/24` admits one address.
-/

namespace Domoticz.LocalNetworks

open CLib

/-! ### The code -/

/-- `stdreplace(s, "*", by)`. -/
def replaceStars (text s : Bytes) : Bytes := s.flatMap fun c => if c = chr '*' then text else [c]

/-- Four numbers as they are put into a stream, with dots between them. -/
def dotted (a b c d : ℤ) : Bytes :=
  decimal a ++ str "." ++ (decimal b ++ str "." ++ (decimal c ++ str "." ++ decimal d))

/-- The octet of a mask, from the number that is read when 999 stands for a star. -/
def maskOctet (e : ℤ) : ℤ := if e ≠ 999 then 255 else 0

/-- `imask`.  A shift by a negative number is undefined. -/
def imask (undefinedShift : UInt8 → UInt32) (keepbits : UInt8) : UInt32 :=
  if keepbits > 0 then
    0 - (if keepbits ≤ 32 then (1 : UInt32) <<< (32 - keepbits.toUInt32)
      else undefinedShift keepbits)
  else 0xFFFFFFFF

/-- What the code finds outside of the program. -/
structure Host where
  /-- `gethostname`, if it succeeds. -/
  hostname : Option Bytes
  /-- `boost::asio::ip::address::from_string` succeeds. -/
  isAddress : Bytes → Bool
  undefinedShift : UInt8 → UInt32

/-- The network that `cWebem::AddLocalNetworks` adds, if it adds one. -/
def addLocalNetworks (host : Host) (network : Bytes) : Option IPNetwork :=
  if network = [] then host.hostname.map fun ac => ⟨0, 0, (cstr ac).map toLower⟩
  -- `find_first_of` returns `npos` if there is none
  else if find (str "*") network ≠ some 0 then
    match scanAddress (cstr (replaceStars (str "0") network)),
        scanAddress (cstr (replaceStars (str "999") network)) with
    | some (a, b, c, d), some (e, f, g, h) =>
        some ⟨ipToUInt (dotted a b c d),
          ipToUInt (dotted (maskOctet e) (maskOctet f) (maskOctet g) (maskOctet h)), []⟩
    | _, _ => none
  else if find (str "/") network ≠ some 0 then
    -- without a slash the whole of it is in front of the slash, and behind it
    let keepbits := UInt8.ofInt (atoi (cstr (past (chr '/') network)))
    some ⟨ipToUInt (upTo (chr '/') network), imask host.undefinedShift keepbits, []⟩
  else if !host.isAddress network then none
  else some ⟨ipToUInt network, ipToUInt (str "255.255.255.255"), []⟩

/-- A server after `AddLocalNetworks` alone. -/
def serverWith (w : Webem) (host : Host) (network : Bytes) : Webem :=
  { w with localnetworks := (addLocalNetworks host network).toList }

/-! ### Addresses and what specifications denote -/

/-- An IPv4 address. -/
structure Address where
  a : UInt8
  b : UInt8
  c : UInt8
  d : UInt8
  deriving DecidableEq

/-- The bits of an address, as a number. -/
def Address.value (x : Address) : ℕ :=
  x.a.toNat * 2 ^ 24 + x.b.toNat * 2 ^ 16 + x.c.toNat * 2 ^ 8 + x.d.toNat

/-- An address in dotted decimal notation. -/
def Address.text (x : Address) : Bytes := dotted x.a.toNat x.b.toNat x.c.toNat x.d.toNat

/-- The documented forms of a specification. -/
inductive Spec
  /-- Four octets, of which `none` is a star.  Without a star it is a single address. -/
  | octets (a b c d : Option UInt8)
  /-- An address and the number of its bits that count. -/
  | bits (address : Address) (n : Fin 33)

/-- An octet of a specification. -/
def octetText : Option UInt8 → Bytes
  | none => str "*"
  | some n => decimal n.toNat

/-- A network as it is configured. -/
def Spec.text : Spec → Bytes
  | .octets a b c d =>
      octetText a ++ str "." ++ (octetText b ++ str "." ++ (octetText c ++ str "." ++ octetText d))
  | .bits address n => address.text ++ str "/" ++ decimal n

/-- An octet matches a star or itself. -/
def Matches (octet : Option UInt8) (x : UInt8) : Prop := ∀ n ∈ octet, x = n

/-- The addresses a specification denotes. -/
def Spec.Denotes : Spec → Address → Prop
  | .octets a b c d, x => Matches a x.a ∧ Matches b x.b ∧ Matches c x.c ∧ Matches d x.d
  | .bits address n, x => x.value / 2 ^ (32 - n.val) = address.value / 2 ^ (32 - n.val)

/-- The stars are at the end, the first octet is none, and 0.0.0.0 does not match; or all bits
count, and the address is not 0.0.0.0. -/
def Spec.Exact : Spec → Prop
  | .octets a b c d =>
      (a ≠ none ∧ (b = none → c = none) ∧ (c = none → d = none)) ∧
        ¬ (Matches a 0 ∧ Matches b 0 ∧ Matches c 0 ∧ Matches d 0)
  | .bits address n => n.val = 32 ∧ address ≠ ⟨0, 0, 0, 0⟩

/-- With the specification alone, the address is local. -/
def Admits (w : Webem) (host : Host) (network : Bytes) (x : Address) : Prop :=
  areWeInLocalNetwork (serverWith w host network) x.text = true

/-- No address comes of a specification: nothing is read, or zeros with a full mask; or there is
no host name, or one that is no address. -/
def Unread (host : Host) (network : Bytes) : Prop :=
  if network = [] then
    ∀ ac ∈ host.hostname, cstr ac ≠ [] ∧ ∀ x : Address, (cstr ac).map toLower ≠ x.text
  else if network.head? = some (chr '*') then
    imask host.undefinedShift (UInt8.ofInt (atoi (cstr (past (chr '/') network)))) = 0xFFFFFFFF
  else
    ∀ a b c d e f g h, scanAddress (cstr (replaceStars (str "0") network)) = some (a, b, c, d) →
      scanAddress (cstr (replaceStars (str "999") network)) = some (e, f, g, h) →
        ipToUInt (dotted a b c d) = 0 ∧ e ≠ 999 ∧ f ≠ 999 ∧ g ≠ 999 ∧ h ≠ 999

/-! ### Reading a quad -/

theorem scanInt_decimal {z : ℤ} (hz : -2 ^ 31 ≤ z ∧ z < 2 ^ 31) {rest : Bytes}
    (hrest : ∀ b ∈ rest.head?, isDigit 10 b = false) :
    scanInt (decimal z ++ rest) = some (z, rest) := by
  have hlong : clampLong z = z := by
    unfold clampLong
    omega
  have hne : rest ≠ decimal z ++ rest := by
    intro h
    exact decimal_ne_nil z (List.append_left_eq_self.mp h.symm)
  rw [scanInt]
  simp only [strtol_decimal z hrest, if_neg hne, hlong, toInt32_eq_self_iff.mpr hz]

theorem dot_append (s : Bytes) : str "." ++ s = chr '.' :: s := rfl

/-- Numbers with dots between them are read, and what is behind them does not matter. -/
theorem scanAddress_dotted {a b c d : ℤ} (ha : -2 ^ 31 ≤ a ∧ a < 2 ^ 31)
    (hb : -2 ^ 31 ≤ b ∧ b < 2 ^ 31) (hc : -2 ^ 31 ≤ c ∧ c < 2 ^ 31) (hd : -2 ^ 31 ≤ d ∧ d < 2 ^ 31)
    {rest : Bytes} (hrest : ∀ b ∈ rest.head?, isDigit 10 b = false) :
    scanAddress (dotted a b c d ++ rest) = some (a, b, c, d) := by
  have hdot (s : Bytes) : ∀ b ∈ (chr '.' :: s).head?, isDigit 10 b = false := by
    intro b hb
    obtain rfl : chr '.' = b := by simpa using hb
    decide
  simp only [dotted, List.append_assoc, dot_append, List.cons_append]
  simp only [scanAddress, Option.bind_eq_bind, scanInt_decimal ha (hdot _), Option.bind_some,
    scanDot, if_true, scanInt_decimal hb (hdot _), scanInt_decimal hc (hdot _),
    scanInt_decimal hd hrest, pure]

/-- A byte that is no digit, sign or dot is in no quad. -/
theorem notMem_dotted {c : UInt8} (x y z t : ℤ) (hdigit : isDigit 10 c = false)
    (hsign : c ≠ chr '-') (hdot : c ≠ chr '.') : c ∉ dotted x y z t := by
  have hdot' : c ∉ str "." := by
    intro h
    exact hdot (List.mem_singleton.mp h)
  simp only [dotted, List.mem_append, not_or]
  exact ⟨⟨notMem_decimal x hdigit hsign, hdot'⟩, ⟨notMem_decimal y hdigit hsign, hdot'⟩,
    ⟨notMem_decimal z hdigit hsign, hdot'⟩, notMem_decimal t hdigit hsign⟩

/-! ### Addresses as 32 bits -/

/-- An address as 32 bits. -/
def Address.word (x : Address) : UInt32 := UInt32.ofNat x.value

theorem Address.value_lt (x : Address) : x.value < 2 ^ 32 := by
  have ha := x.a.toNat_lt
  have hb := x.b.toNat_lt
  have hc := x.c.toNat_lt
  have hd := x.d.toNat_lt
  unfold Address.value
  omega

theorem Address.toNat_word (x : Address) : x.word.toNat = x.value := by
  rw [Address.word, UInt32.toNat_ofNat', Nat.mod_eq_of_lt x.value_lt]

theorem Address.value_injective : Function.Injective Address.value := by
  rintro ⟨a, b, c, d⟩ ⟨a', b', c', d'⟩ h
  have ha := a.toNat_lt
  have hb := b.toNat_lt
  have hc := c.toNat_lt
  have hd := d.toNat_lt
  have ha' := a'.toNat_lt
  have hb' := b'.toNat_lt
  have hc' := c'.toNat_lt
  have hd' := d'.toNat_lt
  simp only [Address.value] at h
  rw [Address.mk.injEq, ← UInt8.toNat_inj, ← UInt8.toNat_inj, ← UInt8.toNat_inj,
    ← UInt8.toNat_inj]
  omega

theorem Address.exists_word (w : UInt32) : ∃ x : Address, x.word = w := by
  refine ⟨⟨UInt8.ofNat (w.toNat / 2 ^ 24), UInt8.ofNat (w.toNat / 2 ^ 16),
    UInt8.ofNat (w.toNat / 2 ^ 8), UInt8.ofNat w.toNat⟩, ?_⟩
  have hw := w.toNat_lt
  rw [← UInt32.toNat_inj, Address.toNat_word, Address.value]
  simp only [UInt8.toNat_ofNat']
  omega

/-- The bits of an address are those of its octets. -/
theorem Address.toBitVec_word (x : Address) : x.word.toBitVec =
    x.a.toBitVec ++ x.b.toBitVec ++ x.c.toBitVec ++ x.d.toBitVec := by
  have hb := x.b.toNat_lt
  have hc := x.c.toNat_lt
  have hd := x.d.toNat_lt
  apply BitVec.eq_of_toNat_eq
  have hword : x.word.toBitVec.toNat = x.value := x.toNat_word
  rw [hword]
  simp only [BitVec.toNat_append, UInt8.toNat_toBitVec]
  rw [← Nat.shiftLeft_add_eq_or_of_lt hb, ← Nat.shiftLeft_add_eq_or_of_lt hc,
    ← Nat.shiftLeft_add_eq_or_of_lt hd, Address.value]
  simp only [Nat.shiftLeft_eq]
  omega

theorem Address.word_and (x y : Address) : x.word &&& y.word =
    Address.word ⟨x.a &&& y.a, x.b &&& y.b, x.c &&& y.c, x.d &&& y.d⟩ := by
  apply UInt32.eq_of_toBitVec_eq
  rw [UInt32.toBitVec_and, toBitVec_word, toBitVec_word, toBitVec_word, BitVec.and_append,
    BitVec.and_append, BitVec.and_append]
  rfl

theorem Address.word_or (x y : Address) : x.word ||| y.word =
    Address.word ⟨x.a ||| y.a, x.b ||| y.b, x.c ||| y.c, x.d ||| y.d⟩ := by
  apply UInt32.eq_of_toBitVec_eq
  rw [UInt32.toBitVec_or, toBitVec_word, toBitVec_word, toBitVec_word, BitVec.or_append,
    BitVec.or_append, BitVec.or_append]
  rfl

theorem Address.word_not (x : Address) : ~~~x.word =
    Address.word ⟨~~~x.a, ~~~x.b, ~~~x.c, ~~~x.d⟩ := by
  apply UInt32.eq_of_toBitVec_eq
  rw [UInt32.toBitVec_not, toBitVec_word, toBitVec_word, BitVec.not_append, BitVec.not_append,
    BitVec.not_append]
  rfl

theorem octet_range (n : UInt8) : -2 ^ 31 ≤ (n.toNat : ℤ) ∧ (n.toNat : ℤ) < 2 ^ 31 := by
  have hn := n.toNat_lt
  omega

/-- Octets that are shifted together. -/
theorem shifted_or {a b c d : ℕ} (hb : b < 2 ^ 8) (hc : c < 2 ^ 8) (hd : d < 2 ^ 8) :
    a <<< 24 ||| b <<< 16 ||| c <<< 8 ||| d = a * 2 ^ 24 + b * 2 ^ 16 + c * 2 ^ 8 + d := by
  have h₁ : a <<< 24 ||| b <<< 16 = (a <<< 8 + b) <<< 16 := by
    rw [← Nat.shiftLeft_add_eq_or_of_lt (show b <<< 16 < 2 ^ 24 by rw [Nat.shiftLeft_eq]; omega)]
    simp only [Nat.shiftLeft_eq]
    omega
  have h₂ : (a <<< 8 + b) <<< 16 ||| c <<< 8 = ((a <<< 8 + b) <<< 8 + c) <<< 8 := by
    rw [← Nat.shiftLeft_add_eq_or_of_lt (show c <<< 8 < 2 ^ 16 by rw [Nat.shiftLeft_eq]; omega)]
    simp only [Nat.shiftLeft_eq]
    omega
  rw [h₁, h₂, ← Nat.shiftLeft_add_eq_or_of_lt hd]
  simp only [Nat.shiftLeft_eq]
  omega

/-- `IPToUInt` of an address. -/
theorem ipToUInt_text (x : Address) : ipToUInt x.text = x.word := by
  have hend : ∀ b ∈ ([] : Bytes).head?, isDigit 10 b = false := by simp
  have hscan := scanAddress_dotted (octet_range x.a) (octet_range x.b) (octet_range x.c)
    (octet_range x.d) hend
  rw [List.append_nil] at hscan
  have hcstr : cstr x.text = x.text :=
    cstr_of_notMem (notMem_dotted _ _ _ _ (by decide) (by decide) (by decide))
  have hoctet (n : UInt8) : (UInt32.ofInt (n.toNat : ℤ)).toNat = n.toNat := by
    have hn := n.toNat_lt
    rw [UInt32.ofInt, UInt32.toNat_ofNat']
    omega
  have hshift (n : UInt8) {k : ℕ} (hk : k ≤ 24) : n.toNat <<< k % 2 ^ 32 = n.toNat <<< k := by
    have hn := n.toNat_lt
    have hpow : 2 ^ k ≤ 2 ^ 24 := Nat.pow_le_pow_right (by decide) hk
    apply Nat.mod_eq_of_lt
    rw [Nat.shiftLeft_eq]
    calc n.toNat * 2 ^ k ≤ 255 * 2 ^ 24 := Nat.mul_le_mul (by omega) hpow
      _ < 2 ^ 32 := by decide
  rw [ipToUInt, hcstr, Address.text, hscan]
  simp only
  rw [← UInt32.toNat_inj, Address.toNat_word]
  simp only [UInt32.toNat_or, UInt32.toNat_shiftLeft, hoctet, UInt32.toNat_ofNat, Nat.reduceMod,
    Nat.reducePow]
  have h24 := hshift x.a (show 24 ≤ 24 by decide)
  have h16 := hshift x.b (show 16 ≤ 24 by decide)
  have h8 := hshift x.c (show 8 ≤ 24 by decide)
  norm_num only at h24 h16 h8
  rw [h24, h16, h8, shifted_or x.b.toNat_lt x.c.toNat_lt x.d.toNat_lt]
  rfl

/-! ### The test -/

/-- An address is admitted if it lies between the ends of a network, and is not 0.0.0.0. -/
theorem admits_word_iff {w : Webem} {host : Host} {network : Bytes} {net mask : UInt32}
    (h : addLocalNetworks host network = some ⟨net, mask, []⟩) (x : Address) :
    Admits w host network x ↔
      x.word ≠ 0 ∧ net &&& mask ≤ x.word ∧ x.word ≤ net &&& mask ||| ~~~mask := by
  have hlen : 3 ≤ x.text.length := by
    simp only [Address.text, dotted, List.length_append]
    have hdot : (str ".").length = 1 := rfl
    omega
  rw [Admits, areWeInLocalNetwork, serverWith, h, decide_eq_true hlen, Bool.true_and]
  simp only [Option.toList_some, List.any_cons, List.any_nil, Bool.or_false, isIPInRange, ne_eq,
    not_true_eq_false, if_false, ipToUInt_text, Bool.and_eq_true, bne_iff_ne, decide_eq_true_eq,
    and_assoc]

theorem Address.word_ne_zero_iff (x : Address) : x.word ≠ 0 ↔ x.value ≠ 0 := by
  rw [← x.toNat_word, Ne, Ne, ← UInt32.toNat_inj]
  rfl

/-- The ends of a network, octet by octet. -/
theorem admits_iff {w : Webem} {host : Host} {network : Bytes} {net mask : Address}
    (h : addLocalNetworks host network = some ⟨net.word, mask.word, []⟩) (x : Address) :
    Admits w host network x ↔ x.value ≠ 0 ∧
      (Address.mk (net.a &&& mask.a) (net.b &&& mask.b) (net.c &&& mask.c)
        (net.d &&& mask.d)).value ≤ x.value ∧
      x.value ≤ (Address.mk (net.a &&& mask.a ||| ~~~mask.a) (net.b &&& mask.b ||| ~~~mask.b)
        (net.c &&& mask.c ||| ~~~mask.c) (net.d &&& mask.d ||| ~~~mask.d)).value := by
  rw [admits_word_iff h]
  simp only [Address.word_and, Address.word_not, Address.word_or, Address.word_ne_zero_iff,
    UInt32.le_iff_toNat_le, Address.toNat_word]

/-- A network is without addresses if it is 0.0.0.0 alone. -/
theorem admits_none_iff {w : Webem} {host : Host} {network : Bytes} {net mask : UInt32}
    (h : addLocalNetworks host network = some ⟨net, mask, []⟩) :
    (∀ x, ¬ Admits w host network x) ↔ net = 0 ∧ mask = 0xFFFFFFFF := by
  have hfull : ~~~(0xFFFFFFFF : UInt32) = 0 := by decide
  constructor
  · intro hnone
    -- the upper end would be admitted
    obtain ⟨x, hx⟩ := Address.exists_word (net &&& mask ||| ~~~mask)
    have hupper : net &&& mask ||| ~~~mask = 0 := by
      by_contra hne
      have hle : net &&& mask ≤ net &&& mask ||| ~~~mask := by
        rw [UInt32.le_iff_toNat_le, UInt32.toNat_or]
        exact Nat.left_le_or
      apply hnone x
      rw [admits_word_iff h, hx]
      exact ⟨hne, hle, UInt32.le_refl _⟩
    obtain ⟨hlower, hmask⟩ := UInt32.or_eq_zero_iff.mp hupper
    have hmask' : mask = 0xFFFFFFFF := by
      rw [UInt32.not_eq_comm] at hmask
      rw [hmask]
      decide
    rw [hmask'] at hlower
    exact ⟨(UInt32.and_neg_one (a := net)).symm.trans hlower, hmask'⟩
  · rintro ⟨rfl, rfl⟩ x hx
    obtain ⟨hne, -, hle⟩ := (admits_word_iff h x).mp hx
    have hzero : x.word ≤ 0 := hle
    rw [UInt32.le_iff_toNat_le] at hzero
    apply hne
    rw [← UInt32.toNat_inj]
    exact Nat.le_zero.mp hzero

/-! ### Quads -/

/-- What is read of an octet when a number stands for a star. -/
def octetNumber (star : ℤ) (octet : Option UInt8) : ℤ := octet.elim star fun n => n.toNat

theorem replaceStars_append (text s t : Bytes) :
    replaceStars text (s ++ t) = replaceStars text s ++ replaceStars text t := List.flatMap_append

theorem replaceStars_of_notMem (text : Bytes) {s : Bytes} (h : chr '*' ∉ s) :
    replaceStars text s = s := by
  induction s with
  | nil => rfl
  | cons c s ih =>
    rw [List.mem_cons, not_or] at h
    have hrest := ih h.2
    rw [replaceStars] at hrest ⊢
    rw [List.flatMap_cons, hrest, if_neg (Ne.symm h.1)]
    rfl

theorem replaceStars_octetText (star : ℤ) (octet : Option UInt8) :
    replaceStars (decimal star) (octetText octet) = decimal (octetNumber star octet) := by
  cases octet with
  | none =>
    have hone : replaceStars (decimal star) (str "*") = decimal star ++ [] := rfl
    rw [octetText, hone, List.append_nil]
    rfl
  | some n =>
    have hmem : chr '*' ∉ decimal n.toNat := notMem_decimal _ (by decide) (by decide)
    exact replaceStars_of_notMem _ hmem

theorem replaceStars_octets (star : ℤ) (a b c d : Option UInt8) :
    replaceStars (decimal star) (Spec.octets a b c d).text =
      dotted (octetNumber star a) (octetNumber star b) (octetNumber star c)
        (octetNumber star d) := by
  have hdot : replaceStars (decimal star) (str ".") = str "." :=
    replaceStars_of_notMem _ (by decide)
  simp only [Spec.text, replaceStars_append, replaceStars_octetText, hdot, dotted]

theorem octetNumber_range {star : ℤ} (hstar : 0 ≤ star ∧ star < 2 ^ 31) (octet : Option UInt8) :
    -2 ^ 31 ≤ octetNumber star octet ∧ octetNumber star octet < 2 ^ 31 := by
  cases octet with
  | none =>
    rw [octetNumber, Option.elim_none]
    omega
  | some n => exact octet_range n

/-- What is read of a quad. -/
theorem scanAddress_octets {star : ℤ} (hstar : 0 ≤ star ∧ star < 2 ^ 31) (a b c d : Option UInt8) :
    scanAddress (cstr (replaceStars (decimal star) (Spec.octets a b c d).text)) =
      some (octetNumber star a, octetNumber star b, octetNumber star c, octetNumber star d) := by
  have hend : ∀ b ∈ ([] : Bytes).head?, isDigit 10 b = false := by simp
  have hscan := scanAddress_dotted (octetNumber_range hstar a) (octetNumber_range hstar b)
    (octetNumber_range hstar c) (octetNumber_range hstar d) hend
  rw [List.append_nil] at hscan
  rw [replaceStars_octets,
    cstr_of_notMem (notMem_dotted _ _ _ _ (by decide) (by decide) (by decide)), hscan]

/-- The octet of a mask. -/
def maskByte (octet : Option UInt8) : UInt8 := if octet.isSome then 255 else 0

theorem octetNumber_zero (octet : Option UInt8) :
    octetNumber 0 octet = ((octet.getD 0).toNat : ℤ) := by
  cases octet with
  | none => rfl
  | some n => rfl

theorem maskOctet_octetNumber (octet : Option UInt8) :
    maskOctet (octetNumber 999 octet) = ((maskByte octet).toNat : ℤ) := by
  cases octet with
  | none => rfl
  | some n =>
    have hn := n.toNat_lt
    have hne : octetNumber 999 (some n) ≠ 999 := by
      rw [octetNumber, Option.elim_some]
      omega
    rw [maskOctet, if_pos hne]
    rfl

theorem head?_octets (n : UInt8) (b c d : Option UInt8) :
    find (str "*") (Spec.octets (some n) b c d).text ≠ some 0 := by
  intro h
  have hhead := find_singleton_eq_zero.mp h
  have hmem : chr '*' ∈ decimal n.toNat := by
    have hne := decimal_ne_nil n.toNat
    rw [Spec.text, octetText, List.append_assoc, List.head?_append_of_ne_nil _ hne] at hhead
    exact List.mem_of_mem_head? hhead
  exact notMem_decimal _ (by decide) (by decide) hmem

theorem octets_ne_nil (a b c d : Option UInt8) : (Spec.octets a b c d).text ≠ [] := by
  have hdot : str "." ≠ [] := by decide
  simp [Spec.text, hdot]

theorem addLocalNetworks_octets (host : Host) (n : UInt8) (b c d : Option UInt8) :
    addLocalNetworks host (Spec.octets (some n) b c d).text =
      some ⟨(Address.mk n (b.getD 0) (c.getD 0) (d.getD 0)).word,
        (Address.mk 255 (maskByte b) (maskByte c) (maskByte d)).word, []⟩ := by
  have hzero : str "0" = decimal 0 := by decide
  have hstar : str "999" = decimal 999 := by decide
  rw [addLocalNetworks, if_neg (octets_ne_nil _ b c d), if_pos (head?_octets n b c d), hzero, hstar,
    scanAddress_octets (by decide), scanAddress_octets (by decide)]
  simp only [octetNumber_zero, maskOctet_octetNumber]
  rw [← ipToUInt_text, ← ipToUInt_text]
  rfl

/-- The addresses that are admitted for a quad that does not begin with a star: what lies between
the one with 0 for each star, and the one with 255. -/
theorem admits_octets_iff (w : Webem) (host : Host) (n : UInt8) (b c d : Option UInt8)
    (x : Address) : Admits w host (Spec.octets (some n) b c d).text x ↔ x.value ≠ 0 ∧
      (Address.mk n (b.getD 0) (c.getD 0) (d.getD 0)).value ≤ x.value ∧
      x.value ≤ (Address.mk n (b.getD 255) (c.getD 255) (d.getD 255)).value := by
  have hlow (octet : Option UInt8) : octet.getD 0 &&& maskByte octet = octet.getD 0 := by
    cases octet with
    | none => rfl
    | some n => exact UInt8.and_neg_one
  have hhigh (octet : Option UInt8) :
      octet.getD 0 ||| ~~~maskByte octet = octet.getD 255 := by
    cases octet with
    | none => rfl
    | some n =>
      have hnot : ~~~(255 : UInt8) = 0 := by decide
      show n ||| ~~~(255 : UInt8) = n
      rw [hnot, UInt8.or_zero]
  have hfirst := hlow (some n)
  have hlast := hhigh (some n)
  simp only [Option.getD_some, maskByte, Option.isSome_some, if_true] at hfirst hlast
  rw [admits_iff (addLocalNetworks_octets host n b c d) x]
  simp only [hlow, hhigh, hfirst, hlast]

theorem Address.value_zero {x : Address} : x.value = 0 ↔ x = ⟨0, 0, 0, 0⟩ := by
  have hzero : (Address.mk 0 0 0 0).value = 0 := rfl
  rw [← hzero, Address.value_injective.eq_iff]

@[simp] theorem matches_none (x : UInt8) : Matches none x ↔ True := by simp [Matches]

@[simp] theorem matches_some (n x : UInt8) : Matches (some n) x ↔ x.toNat = n.toNat := by
  simp [Matches, UInt8.toNat_inj]

/-- Where the stars are at the end, the interval is the network. -/
theorem octets_denotes {n : UInt8} {b c d : Option UInt8} (hb : b = none → c = none)
    (hc : c = none → d = none) (x : Address) :
    (Spec.octets (some n) b c d).Denotes x ↔
      (Address.mk n (b.getD 0) (c.getD 0) (d.getD 0)).value ≤ x.value ∧
        x.value ≤ (Address.mk n (b.getD 255) (c.getD 255) (d.getD 255)).value := by
  obtain ⟨xa, xb, xc, xd⟩ := x
  have hxa := xa.toNat_lt
  have hxb := xb.toNat_lt
  have hxc := xc.toNat_lt
  have hxd := xd.toNat_lt
  have hfull : (255 : UInt8).toNat = 255 := rfl
  have hnone : (0 : UInt8).toNat = 0 := rfl
  simp only [Spec.Denotes, Address.value]
  cases b with
  | none =>
    obtain rfl := hb rfl
    obtain rfl := hc rfl
    simp only [Option.getD_none, hfull, hnone, matches_none, matches_some, and_true]
    omega
  | some b =>
    have hlt := b.toNat_lt
    cases c with
    | none =>
      obtain rfl := hc rfl
      simp only [Option.getD_none, Option.getD_some, hfull, hnone, matches_none, matches_some,
        and_true]
      omega
    | some c =>
      have hltc := c.toNat_lt
      cases d with
      | none =>
        simp only [Option.getD_none, Option.getD_some, hfull, hnone, matches_none, matches_some,
          and_true]
        omega
      | some d =>
        have hltd := d.toNat_lt
        simp only [Option.getD_some, matches_some]
        omega

theorem octet_succ_ne (n : UInt8) : n + 1 ≠ n := by
  have hn := n.toNat_lt
  have hone : (1 : UInt8).toNat = 1 := rfl
  rw [Ne, ← UInt8.toNat_inj, UInt8.toNat_add]
  omega

/-- A quad that does not begin with a star is the network it denotes only if its stars are at the
end, and 0.0.0.0 does not match. -/
theorem exact_octets_iff (w : Webem) (host : Host) (n : UInt8) (b c d : Option UInt8) :
    (∀ x, Admits w host (Spec.octets (some n) b c d).text x ↔
        (Spec.octets (some n) b c d).Denotes x) ↔ (Spec.octets (some n) b c d).Exact := by
  constructor
  · intro h
    -- an address between the ends that does not match
    have hinside (y z t : UInt8)
        (hlow : (Address.mk n (b.getD 0) (c.getD 0) (d.getD 0)).value < (Address.mk n y z t).value)
        (hhigh : (Address.mk n y z t).value ≤
          (Address.mk n (b.getD 255) (c.getD 255) (d.getD 255)).value) :
        Matches c z ∧ Matches d t := by
      have hadmits : Admits w host (Spec.octets (some n) b c d).text ⟨n, y, z, t⟩ := by
        rw [admits_octets_iff]
        exact ⟨by omega, by omega, hhigh⟩
      exact ((h _).mp hadmits).2.2
    have hnone : (0 : UInt8).toNat = 0 := rfl
    have hone : (1 : UInt8).toNat = 1 := rfl
    have hfull : (255 : UInt8).toNat = 255 := rfl
    refine ⟨⟨by simp, ?_, ?_⟩, ?_⟩
    · intro hb
      subst hb
      cases c with
      | none => rfl
      | some c =>
        have hc := c.toNat_lt
        have hc' := (c + 1).toNat_lt
        have hd := (d.getD 0).toNat_lt
        have hmatches := (hinside 1 (c + 1) 0
          (by simp only [Address.value, Option.getD_none, Option.getD_some, hone, hnone]; omega)
          (by simp only [Address.value, Option.getD_none, Option.getD_some, hone, hnone, hfull]
              omega)).1
        exact absurd (hmatches c rfl) (octet_succ_ne c)
    · intro hc
      subst hc
      cases d with
      | none => rfl
      | some d =>
        have hd := d.toNat_lt
        have hd' := (d + 1).toNat_lt
        have hb : (b.getD 0).toNat ≤ (b.getD 1).toNat ∧ (b.getD 1).toNat ≤ (b.getD 255).toNat := by
          cases b with
          | none => decide
          | some b => exact ⟨le_refl _, le_refl _⟩
        have hmatches := (hinside (b.getD 1) 1 (d + 1)
          (by simp only [Address.value, Option.getD_none, Option.getD_some, hone, hnone]; omega)
          (by simp only [Address.value, Option.getD_none, Option.getD_some, hone, hfull]
              omega)).2
        exact absurd (hmatches d rfl) (octet_succ_ne d)
    · -- 0.0.0.0 is not admitted
      intro hzero
      have hadmits := (h ⟨0, 0, 0, 0⟩).mpr hzero
      rw [admits_octets_iff] at hadmits
      exact hadmits.1 rfl
  · rintro ⟨⟨-, hb, hc⟩, hzero⟩ x
    rw [admits_octets_iff, octets_denotes hb hc]
    constructor
    · rintro ⟨-, hle⟩
      exact hle
    · intro hle
      refine ⟨?_, hle⟩
      intro hvalue
      obtain rfl := Address.value_zero.mp hvalue
      exact hzero ((octets_denotes hb hc _).mpr hle)

/-! ### A star in front -/

/-- No number is read of what begins with a star. -/
theorem strtol_star (s : Bytes) : strtol 10 (chr '*' :: s) = (0, chr '*' :: s) := by
  have hsign : takeSign ((chr '*' :: s).dropWhile isSpace) = (false, chr '*' :: s) := rfl
  have hdigits : (chr '*' :: s).takeWhile (isDigit 10) = [] := rfl
  rw [strtol, hsign]
  simp only [skipHexPrefix_ten, hdigits, if_true]

theorem ipToUInt_star (s : Bytes) : ipToUInt (chr '*' :: s) = 0 := by
  have hcstr : cstr (chr '*' :: s) = chr '*' :: cstr s := rfl
  have hscan : scanAddress (chr '*' :: cstr s) = none := by
    rw [scanAddress, scanInt, strtol_star, if_pos rfl]
    rfl
  rw [ipToUInt, hcstr, hscan]

/-- What begins with a star is taken for a number of bits without an address. -/
theorem addLocalNetworks_star (host : Host) (s : Bytes) :
    addLocalNetworks host (chr '*' :: s) =
      some ⟨0, imask host.undefinedShift
        (UInt8.ofInt (atoi (cstr (past (chr '/') (chr '*' :: s))))), []⟩ := by
  have hstar : find (str "*") (chr '*' :: s) = some 0 := find_singleton_eq_zero.mpr rfl
  have hslash : find (str "/") (chr '*' :: s) ≠ some 0 := by
    intro h
    have hhead : some (chr '*') = some (chr '/') := find_singleton_eq_zero.mp h
    exact absurd hhead (by decide)
  have hfront : upTo (chr '/') (chr '*' :: s) = chr '*' :: upTo (chr '/') s := rfl
  rw [addLocalNetworks, if_neg (List.cons_ne_nil _ _), if_neg (not_not.mpr hstar), if_pos hslash,
    hfront, ipToUInt_star]

/-- A quad that begins with a star admits no address. -/
theorem admits_none_octets (w : Webem) (host : Host) (b c d : Option UInt8) (x : Address) :
    ¬ Admits w host (Spec.octets none b c d).text x := by
  have htext : (Spec.octets none b c d).text = chr '*' :: (str "." ++ (octetText b ++ str "." ++
      (octetText c ++ str "." ++ octetText d))) := rfl
  have hslash : chr '/' ∉ (Spec.octets none b c d).text := by
    have hdot : chr '/' ∉ str "." := by decide
    have hoctet (octet : Option UInt8) : chr '/' ∉ octetText octet := by
      cases octet with
      | none => decide
      | some n =>
        have hmem : chr '/' ∉ decimal n.toNat := notMem_decimal _ (by decide) (by decide)
        exact hmem
    simp only [Spec.text, List.mem_append, not_or]
    exact ⟨⟨hoctet none, hdot⟩, ⟨hoctet b, hdot⟩, ⟨hoctet c, hdot⟩, hoctet d⟩
  have hpast : past (chr '/') (Spec.octets none b c d).text = (Spec.octets none b c d).text := by
    have hall : (Spec.octets none b c d).text.dropWhile (· != chr '/') = [] := by
      rw [List.dropWhile_eq_nil_iff]
      intro y hy
      rw [bne_iff_ne]
      rintro rfl
      exact hslash hy
    rw [past, hall]
  have hadd := addLocalNetworks_star host (str "." ++ (octetText b ++ str "." ++
      (octetText c ++ str "." ++ octetText d)))
  rw [← htext, hpast, htext] at hadd
  have hcstr (s : Bytes) : cstr (chr '*' :: s) = chr '*' :: cstr s := rfl
  rw [hcstr, atoi, strtol_star] at hadd
  exact (admits_none_iff hadd).mpr ⟨rfl, rfl⟩ x

/-! ### An address with a number of bits -/

theorem addLocalNetworks_bits (host : Host) (address : Address) (n : Fin 33) :
    addLocalNetworks host (Spec.bits address n).text =
      some ⟨address.word, (Address.mk 255 255 255 255).word, []⟩ := by
  have htext : (Spec.bits address n).text =
      address.text ++ (str "/" ++ decimal n) := List.append_assoc _ _ _
  have hstar : chr '*' ∉ (Spec.bits address n).text := by
    have hslash : chr '*' ∉ str "/" := by decide
    simp only [Spec.text, List.mem_append, not_or]
    exact ⟨⟨notMem_dotted _ _ _ _ (by decide) (by decide) (by decide), hslash⟩,
      notMem_decimal _ (by decide) (by decide)⟩
  have hzero : 0 ∉ (Spec.bits address n).text := by
    have hslash : 0 ∉ str "/" := by decide
    simp only [Spec.text, List.mem_append, not_or]
    exact ⟨⟨notMem_dotted _ _ _ _ (by decide) (by decide) (by decide), hslash⟩,
      notMem_decimal _ (by decide) (by decide)⟩
  have hne : (Spec.bits address n).text ≠ [] := by
    have hslash : str "/" ≠ [] := by decide
    simp [Spec.text, hslash]
  have hfind : find (str "*") (Spec.bits address n).text ≠ some 0 := by
    intro h
    exact hstar (List.mem_of_mem_head? (find_singleton_eq_zero.mp h))
  have hscan : scanAddress (cstr (Spec.bits address n).text) =
      some ((address.a.toNat : ℤ), (address.b.toNat : ℤ), (address.c.toNat : ℤ),
        (address.d.toNat : ℤ)) := by
    rw [cstr_of_notMem hzero, htext]
    apply scanAddress_dotted (octet_range address.a) (octet_range address.b)
      (octet_range address.c) (octet_range address.d)
    intro b hb
    obtain rfl : chr '/' = b := by simpa [str] using hb
    decide
  have hmask (m : UInt8) : maskOctet m.toNat = ((255 : UInt8).toNat : ℤ) := by
    have hm := m.toNat_lt
    rw [maskOctet, if_pos (by omega)]
    rfl
  rw [addLocalNetworks, if_neg hne, if_pos hfind, replaceStars_of_notMem _ hstar,
    replaceStars_of_notMem _ hstar, hscan]
  simp only [hmask]
  rw [← ipToUInt_text, ← ipToUInt_text]
  rfl

/-- The number of bits is not looked at. -/
theorem admits_bits_iff (w : Webem) (host : Host) (address : Address) (n : Fin 33) (x : Address) :
    Admits w host (Spec.bits address n).text x ↔ x.value ≠ 0 ∧ x = address := by
  have hlow (m : UInt8) : m &&& 255 = m := UInt8.and_neg_one
  have hhigh (m : UInt8) : m ||| ~~~255 = m := by
    have hnot : ~~~(255 : UInt8) = 0 := by decide
    rw [hnot, UInt8.or_zero]
  obtain ⟨a, b, c, d⟩ := address
  rw [admits_iff (addLocalNetworks_bits host ⟨a, b, c, d⟩ n) x]
  simp only [hlow, hhigh]
  rw [← Address.value_injective.eq_iff]
  omega

/-- The address that differs in its last bit. -/
theorem exists_neighbour (address : Address) :
    ∃ x : Address, x.value ≠ address.value ∧ x.value / 2 = address.value / 2 := by
  have hlt := address.value_lt
  obtain ⟨x, hx⟩ := Address.exists_word
    (UInt32.ofNat (address.value / 2 * 2 + (1 - address.value % 2)))
  have hvalue : x.value = address.value / 2 * 2 + (1 - address.value % 2) := by
    rw [← x.toNat_word, hx, UInt32.toNat_ofNat']
    omega
  exact ⟨x, by omega, by omega⟩

theorem exact_bits_iff (w : Webem) (host : Host) (address : Address) (n : Fin 33) :
    (∀ x, Admits w host (Spec.bits address n).text x ↔ (Spec.bits address n).Denotes x) ↔
      (Spec.bits address n).Exact := by
  constructor
  · intro h
    constructor
    · by_contra hn
      obtain ⟨x, hne, hhalf⟩ := exists_neighbour address
      -- the neighbour shares all bits but the last
      have hdenotes : (Spec.bits address n).Denotes x := by
        obtain ⟨k, hk⟩ : ∃ k, 32 - n.val = k + 1 := ⟨31 - n.val, by have := n.isLt; omega⟩
        rw [Spec.Denotes, hk, pow_succ', ← Nat.div_div_eq_div_mul, ← Nat.div_div_eq_div_mul, hhalf]
      obtain ⟨-, rfl⟩ := (admits_bits_iff w host address n x).mp ((h x).mpr hdenotes)
      exact hne rfl
    · have hself := (admits_bits_iff w host address n address).mp ((h address).mpr rfl)
      intro hzero
      exact hself.1 (Address.value_zero.mpr hzero)
  · rintro ⟨hn, hzero⟩ x
    rw [admits_bits_iff, Spec.Denotes, hn, Nat.sub_self, pow_zero, Nat.div_one, Nat.div_one,
      Address.value_injective.eq_iff, and_iff_right_iff_imp]
    rintro rfl hvalue
    exact hzero (Address.value_zero.mp hvalue)

/-! ### Membership -/

theorem exact_iff (w : Webem) (host : Host) (form : Spec) :
    (∀ x, Admits w host form.text x ↔ form.Denotes x) ↔ form.Exact := by
  cases form with
  | bits address n => exact exact_bits_iff w host address n
  | octets a b c d =>
    cases a with
    | some n => exact exact_octets_iff w host n b c d
    | none =>
      constructor
      · intro h
        -- an address that matches, and is not admitted
        have hdenotes : (Spec.octets none b c d).Denotes ⟨0, b.getD 0, c.getD 0, d.getD 0⟩ := by
          refine ⟨by simp, ?_, ?_, ?_⟩
          · cases b <;> simp
          · cases c <;> simp
          · cases d <;> simp
        exact absurd ((h _).mpr hdenotes) (admits_none_octets w host b c d _)
      · rintro ⟨⟨hfirst, -⟩, -⟩
        exact absurd rfl hfirst

/-- The name of the host, instead of a network. -/
theorem admits_hostname {w : Webem} {host : Host} {ac : Bytes} (h : host.hostname = some ac)
    (hname : cstr ac ≠ []) (x : Address) :
    Admits w host [] x ↔ (cstr ac).map toLower = x.text := by
  have hlen : 3 ≤ x.text.length := by
    simp only [Address.text, dotted, List.length_append]
    have hdot : (str ".").length = 1 := rfl
    omega
  have hlower : (cstr ac).map toLower ≠ [] := by simpa using hname
  rw [Admits, areWeInLocalNetwork, serverWith, addLocalNetworks, if_pos rfl, h,
    decide_eq_true hlen, Bool.true_and]
  simp only [Option.map_some, Option.toList_some, List.any_cons, List.any_nil, Bool.or_false,
    isIPInRange, if_pos hlower, beq_iff_eq]
  exact eq_comm

theorem not_admits {w : Webem} {host : Host} {network : Bytes}
    (h : addLocalNetworks host network = none) (x : Address) : ¬ Admits w host network x := by
  rw [Admits, areWeInLocalNetwork, serverWith, h]
  simp

/-- A mask is full if no number stands for a star. -/
theorem full_mask_iff (e f g h : ℤ) :
    ipToUInt (dotted (maskOctet e) (maskOctet f) (maskOctet g) (maskOctet h)) = 0xFFFFFFFF ↔
      e ≠ 999 ∧ f ≠ 999 ∧ g ≠ 999 ∧ h ≠ 999 := by
  -- the octet as a byte
  have hbyte (e : ℤ) : ∃ m : UInt8, maskOctet e = (m.toNat : ℤ) ∧ (m = 255 ↔ e ≠ 999) := by
    by_cases he : e = 999
    · exact ⟨0, by rw [maskOctet, if_neg (not_not.mpr he)]; rfl, by simp [he]⟩
    · exact ⟨255, by rw [maskOctet, if_pos he]; rfl, by simp [he]⟩
  obtain ⟨m₁, h₁, he⟩ := hbyte e
  obtain ⟨m₂, h₂, hf⟩ := hbyte f
  obtain ⟨m₃, h₃, hg⟩ := hbyte g
  obtain ⟨m₄, h₄, hh⟩ := hbyte h
  have htext := ipToUInt_text ⟨m₁, m₂, m₃, m₄⟩
  rw [Address.text] at htext
  have hfull : (0xFFFFFFFF : UInt32) = (Address.mk 255 255 255 255).word := rfl
  rw [h₁, h₂, h₃, h₄, htext, hfull, ← UInt32.toNat_inj, Address.toNat_word, Address.toNat_word,
    Address.value_injective.eq_iff, Address.mk.injEq, he, hf, hg, hh]

theorem unread_iff (w : Webem) (host : Host) (network : Bytes) :
    (∀ x, ¬ Admits w host network x) ↔ Unread host network := by
  cases network with
  | nil =>
    rw [Unread, if_pos rfl]
    cases hhost : host.hostname with
    | none =>
      have hadd : addLocalNetworks host [] = none := by
        rw [addLocalNetworks, if_pos rfl, hhost]
        rfl
      simpa using not_admits hadd
    | some ac =>
      simp only [Option.mem_def, Option.some.injEq, forall_eq']
      by_cases hname : cstr ac = []
      · -- the network of no name is every address
        have hadd : addLocalNetworks host [] = some ⟨0, 0, []⟩ := by
          rw [addLocalNetworks, if_pos rfl, hhost, Option.map_some, hname]
          rfl
        rw [admits_none_iff hadd]
        constructor
        · rintro ⟨-, hmask⟩
          exact absurd hmask (by decide)
        · rintro ⟨hne, -⟩
          exact absurd hname hne
      · simp only [admits_hostname hhost hname, ne_eq, hname, not_false_eq_true, true_and]
  | cons y s =>
    rw [Unread, if_neg (List.cons_ne_nil y s)]
    by_cases hy : y = chr '*'
    · subst hy
      rw [if_pos (show (chr '*' :: s).head? = some (chr '*') from rfl),
        admits_none_iff (addLocalNetworks_star host s)]
      simp only [true_and]
    · have hhead : (y :: s).head? ≠ some (chr '*') := by simpa using hy
      -- a star in front is tested for before the numbers are read
      have hfind : find (str "*") (y :: s) ≠ some 0 := by
        intro h
        exact hhead (find_singleton_eq_zero.mp h)
      rw [if_neg hhead]
      cases hzero : scanAddress (cstr (replaceStars (str "0") (y :: s))) with
      | none =>
        have hadd : addLocalNetworks host (y :: s) = none := by
          rw [addLocalNetworks, if_neg (List.cons_ne_nil y s), if_pos hfind, hzero]
        simpa using not_admits hadd
      | some numbers =>
        obtain ⟨a, b, c, d⟩ := numbers
        cases hstar : scanAddress (cstr (replaceStars (str "999") (y :: s))) with
        | none =>
          have hadd : addLocalNetworks host (y :: s) = none := by
            rw [addLocalNetworks, if_neg (List.cons_ne_nil y s), if_pos hfind, hzero, hstar]
          simpa using not_admits hadd
        | some masks =>
          -- read a second time, the stars stand for numbers that no octet has
          obtain ⟨e, f, g, h⟩ := masks
          have hadd : addLocalNetworks host (y :: s) = some ⟨ipToUInt (dotted a b c d),
              ipToUInt (dotted (maskOctet e) (maskOctet f) (maskOctet g) (maskOctet h)), []⟩ := by
            rw [addLocalNetworks, if_neg (List.cons_ne_nil y s), if_pos hfind, hzero, hstar]
          rw [admits_none_iff hadd, full_mask_iff]
          constructor
          · rintro hnone _ _ _ _ _ _ _ _ ⟨⟩ ⟨⟩
            exact hnone
          · intro hunread
            exact hunread a b c d e f g h rfl rfl

/-- **The network of a specification is what it denotes exactly if the specification is exact, and
one without addresses comes exactly of what is unread.** -/
theorem membership_iff (w : Webem) (host : Host) :
    (∀ form : Spec, (∀ x, Admits w host form.text x ↔ form.Denotes x) ↔ form.Exact) ∧
      ∀ network, (∀ x, ¬ Admits w host network x) ↔ Unread host network :=
  ⟨exact_iff w host, unread_iff w host⟩

/-- A server without any settings. -/
def bareServer : Webem where
  crypto := { md5 := fun s => s, base64Decode := fun s => s }

/-- A host whose name cannot be read. -/
def namelessHost : Host := ⟨none, fun _ => false, fun _ => 0⟩

/-- A network of 256 addresses, and an address in it that is not admitted. -/
theorem bits_ignored :
    (Spec.bits ⟨192, 168, 0, 0⟩ 24).Denotes ⟨192, 168, 0, 7⟩ ∧
      ¬ Admits bareServer namelessHost (Spec.bits ⟨192, 168, 0, 0⟩ 24).text ⟨192, 168, 0, 7⟩ := by
  constructor
  · rfl
  · rw [admits_bits_iff]
    decide

end Domoticz.LocalNetworks
