import Domoticz.Web.Session

/-!
# Local networks

Which client addresses count as local.  An address is read by `sscanf` with
`%d.%d.%d.%d`, and its four numbers are shifted together without a look at their
size; an address that cannot be read is zero and in no network.

## Main definitions

* `ipToUInt` — an address as a 32-bit number.
* `areWeInLocalNetwork` — the test against the configured networks.
-/

namespace Domoticz

open CLib

/-- `%d` of `sscanf`: the number and the rest, if there is a number. -/
def scanInt (s : Bytes) : Option (ℤ × Bytes) :=
  let r := strtol 10 s
  if r.2 = s then none else some (toInt32 r.1, r.2)

/-- The `.` of a `sscanf` format. -/
def scanDot : Bytes → Option Bytes
  | c :: s => if c = chr '.' then some s else none
  | [] => none

/-- `sscanf(ip, "%d.%d.%d.%d", ...)`. -/
def scanAddress (ip : Bytes) : Option (ℤ × ℤ × ℤ × ℤ) := do
  let (a, s) ← scanInt ip
  let (b, s) ← scanInt (← scanDot s)
  let (c, s) ← scanInt (← scanDot s)
  let (d, _) ← scanInt (← scanDot s)
  return (a, b, c, d)

/-- `IPToUInt`. -/
def ipToUInt (ip : Bytes) : UInt32 :=
  match scanAddress (cstr ip) with
  | none => 0
  | some (a, b, c, d) =>
      UInt32.ofInt a <<< 24 ||| UInt32.ofInt b <<< 16 ||| UInt32.ofInt c <<< 8 ||| UInt32.ofInt d

/-- `IsIPInRange`. -/
def isIPInRange (ip : Bytes) (net : IPNetwork) : Bool :=
  if net.hostname ≠ [] then ip == net.hostname
  else
    let ipAddr := ipToUInt ip
    let netLower := net.network &&& net.mask
    let netUpper := netLower ||| ~~~net.mask
    ipAddr != 0 && netLower ≤ ipAddr && ipAddr ≤ netUpper

/-- `AreWeInLocalNetwork`. -/
def areWeInLocalNetwork (w : Webem) (host : Bytes) : Bool :=
  3 ≤ host.length && w.localnetworks.any (isIPInRange host)

end Domoticz
