/-!
# Numbers and texts as bytes

A number is written in base 256 with a fixed number of digits, so that what follows it can be found
without a separator. Digits beyond that number are dropped.
-/

namespace HostBinding.Bytes

/-- The lowest `count` digits of a number, least significant first. -/
def littleEndian : Nat → Nat → List UInt8
  | 0, _ => []
  | count + 1, value => UInt8.ofNat value :: littleEndian count (value / 256)

/-- The lowest `count` digits of a number, most significant first. -/
def bigEndian (count value : Nat) : List UInt8 :=
  (littleEndian count value).reverse

theorem length_littleEndian (count value : Nat) : (littleEndian count value).length = count := by
  induction count generalizing value with
  | zero => rfl
  | succ count ih => rw [littleEndian, List.length_cons, ih]

def ofText (text : String) : List UInt8 :=
  text.toByteArray.data.toList

end HostBinding.Bytes
