import TensorIR.Text.Legible

/-!
Diagnostic notation: values written so that their structure shows, such as `Known([1, 2])`,
`Point { x: 1, y: 2 }` and `"a\tb"`.
-/

namespace TensorIR.Inspect

def list (items : List String) : String :=
  "[" ++ ", ".intercalate items ++ "]"

/-- A variant of a sum with its arguments; a variant without any is its bare name. -/
def variant (name : String) (args : List String) : String :=
  if args.isEmpty then name else name ++ "(" ++ ", ".intercalate args ++ ")"

def record (name : String) (fields : List (String × String)) : String :=
  let fields := fields.map fun (key, value) => key ++ ": " ++ value
  name ++ " \x7b " ++ ", ".intercalate fields ++ " \x7d"

def option : Option String → String
  | some text => variant "Some" [text]
  | none => variant "None" []

def bool (b : Bool) : String :=
  if b then "true" else "false"

def hexadecimal (n : Nat) : String :=
  String.ofList (Nat.toDigits 16 n)

def escape (quote c : Char) : String :=
  if c = '\x00' then "\\0"
  else if c = '\t' then "\\t"
  else if c = '\r' then "\\r"
  else if c = '\n' then "\\n"
  else if c = '\\' ∨ c = quote then "\\" ++ c.toString
  else if Text.isLegible c then c.toString
  else "\\u\x7b" ++ hexadecimal c.toNat ++ "\x7d"

def string (s : String) : String :=
  "\"" ++ String.join (s.toList.map (escape '"')) ++ "\""

def char (c : Char) : String :=
  "'" ++ escape '\'' c ++ "'"

end TensorIR.Inspect
