/-!
# Numerals

Bounds and sizes are written in digits. A numeral is read as a natural number of any size first, and only
then checked against the 64-bit words that the domain uses.
-/

namespace HostBinding.Text

/-- The value of a digit, also of the letters that digits above nine are written with. -/
def digitValue? (c : Char) : Option Nat :=
  if c.isDigit then some (c.toNat - '0'.toNat)
  else if 'a' ≤ c ∧ c ≤ 'z' then some (c.toNat - 'a'.toNat + 10)
  else if 'A' ≤ c ∧ c ≤ 'Z' then some (c.toNat - 'A'.toNat + 10)
  else none

def readDigits? (base : Nat) (text : List Char) : Option Nat :=
  if text.isEmpty then none
  else text.foldlM (fun value c => do
    let digit ← digitValue? c
    if digit < base then some (value * base + digit) else none) 0

def word64? (value : Nat) : Option UInt64 :=
  if value < UInt64.size then some (UInt64.ofNat value) else none

theorem word64?_toNat (word : UInt64) : word64? word.toNat = some word := by
  simp [word64?, word.toNat_lt]

def dropPlus : List Char → List Char
  | '+' :: rest => rest
  | text => text

/-- Reads an unsigned 64-bit number: an optional plus sign, then decimal digits. Leading zeros are
allowed. -/
def readWord64? (text : List Char) : Option UInt64 :=
  (readDigits? 10 (dropPlus text)).bind word64?

end HostBinding.Text
