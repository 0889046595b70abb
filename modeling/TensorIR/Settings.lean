import TensorIR.Event
import TensorIR.Text.Unsigned

/-!
Settings from environment variables. A variable that is not set and one that is blank are the same.
A value that is none for its variable is reported and ignored.
-/

namespace TensorIR

structure Environment where
  -- What the names of the variables start with.
  program : String
  lookup : String → Option String

namespace Setting

def isBlank (c : Char) : Bool :=
  (0x9 ≤ c.toNat && c.toNat ≤ 0xd) || [0x20, 0x85, 0xa0, 0x1680, 0x2028, 0x2029, 0x202f, 0x205f,
    0x3000].contains c.toNat || (0x2000 ≤ c.toNat && c.toNat ≤ 0x200a)

def trim (s : String) : String :=
  String.ofList ((s.toList.dropWhile isBlank).reverse.dropWhile isBlank).reverse

def readSwitch? (s : String) : Option Bool :=
  let word := String.ofList (s.toList.map Char.toLower)
  if ["1", "true", "on", "yes"].contains word then some true
  else if ["0", "false", "off", "no"].contains word then some false
  else none

def readThreadCount? (s : String) : Option UInt64 := do
  let n ← Text.readUnsigned? s.toList
  if 0 < n ∧ n < UInt64.size then some (UInt64.ofNat n) else none

def readIdentifier? (s : String) : Option String :=
  match s.toList with
  | c :: cs =>
    if (c.isAlpha || c == '_') && cs.all (fun c => c.isAlphanum || c == '_') then some s else none
  | [] => none

end Setting

def Environment.read? {α : Type} (env : Environment) (setting : String)
    (parse : String → Option α) : Logged (Option α) := do
  let var := env.program ++ "_" ++ setting
  let value := Setting.trim ((env.lookup var).getD "")
  if value.isEmpty then return none
  match parse value with
  | some a => return some a
  | none =>
    emit (.invalidSetting var value)
    return none

end TensorIR
