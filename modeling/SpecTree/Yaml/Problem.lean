import SpecTree.Decimal.Limit
import SpecTree.Text.Quoted
import SpecTree.Time.Calendar

/-!
# Problems of a file

Why a file cannot be read: it is malformed, or one of its values is out of range or is not what
its tag says.
-/

namespace SpecTree.Yaml

inductive Problem where
  | malformed
  /-- A number without a digit after its sign. -/
  | noDigits
  | notWhole (base : Nat) (text : String)
  | notReal (text : String)
  /-- A number with too many digits. -/
  | longNumber (digits : Nat)
  | notFlag
  | notStamp
  | badDate (fault : Calendar.Fault)
  /-- An escape of a number that is no code point. -/
  | beyondUnicode
  /-- An escape of a number that is not even a machine word. -/
  | beyondWord
  deriving Repr, DecidableEq

def Problem.message : Problem → String
  | malformed => "The file is malformed"
  | noDigits => "A number has no digits"
  | notWhole base text =>
    "invalid literal for int() with base " ++ toString base ++ ": " ++ Text.quoted text
  | notReal text => "could not convert string to float: " ++ Text.quoted text
  | longNumber digits => Decimal.tooLong digits
  | notFlag => "A value is no flag"
  | notStamp => "A value is no time stamp"
  | badDate fault => fault.message
  | beyondUnicode => "chr() arg not in range(0x110000)"
  | beyondWord => "Python int too large to convert to C int"

end SpecTree.Yaml
