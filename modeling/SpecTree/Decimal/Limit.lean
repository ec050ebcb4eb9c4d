/-!
# The length of numbers

A whole number may be given with a bounded count of decimal digits.
-/

namespace SpecTree.Decimal

def maxDigits : Nat := 4300

/-- The complaint about a number with more digits. -/
def tooLong (digits : Nat) : String :=
  "Exceeds the limit (" ++ toString maxDigits ++ " digits) for integer string conversion: value has "
    ++ toString digits ++ " digits; use sys.set_int_max_str_digits() to increase the limit"

end SpecTree.Decimal
