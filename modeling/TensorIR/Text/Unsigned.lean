/-!
Unsigned decimal numbers: an optional plus sign and one or more digits, leading zeros allowed.
-/

namespace TensorIR.Text

def digitsValue (n : Nat) : List Char → Nat
  | [] => n
  | c :: cs => digitsValue (10 * n + (c.toNat - '0'.toNat)) cs

def readDigits? (cs : List Char) : Option Nat :=
  if !cs.isEmpty && cs.all Char.isDigit then some (digitsValue 0 cs) else none

def readUnsigned? : List Char → Option Nat
  | '+' :: cs => readDigits? cs
  | cs => readDigits? cs

end TensorIR.Text
