/-!
String literals in double quotes. Characters that are printable stand as they are; all others are
escaped by `\n`, `\r`, `\t`, or by their code point as `\xNN`, `\uNNNN` or `\UNNNNNNNN`. `encode`
writes a literal and `decode?` reads one.
-/

namespace TensorIR.Text.Quoted

def isControl (c : Char) : Bool :=
  c.toNat < 0x20 || (0x7f ≤ c.toNat && c.toNat ≤ 0x9f)

/-- Format characters and separators that do not show: soft hyphen, zero width, direction, lines. -/
def isFormat (c : Char) : Bool :=
  c.toNat = 0xad || (0x200b ≤ c.toNat && c.toNat ≤ 0x200f) ||
    (0x2028 ≤ c.toNat && c.toNat ≤ 0x202e) || c.toNat = 0xfeff

def hexDigits (width n : Nat) : List Char :=
  match width with
  | 0 => []
  | width + 1 => hexDigits width (n / 16) ++ [(n % 16).digitChar]

def escapeCode (n : Nat) : List Char :=
  if n ≤ 0xff then '\\' :: 'x' :: hexDigits 2 n
  else if n ≤ 0xffff then '\\' :: 'u' :: hexDigits 4 n
  else '\\' :: 'U' :: hexDigits 8 n

def escape (c : Char) : List Char :=
  if c = '\\' then ['\\', '\\']
  else if c = '"' then ['\\', '"']
  else if c = '\n' then ['\\', 'n']
  else if c = '\r' then ['\\', 'r']
  else if c = '\t' then ['\\', 't']
  else if isControl c || isFormat c then escapeCode c.toNat
  else [c]

def body (cs : List Char) : List Char :=
  cs.flatMap escape

def encode (s : String) : String :=
  String.ofList ('"' :: body s.toList ++ ['"'])

def hexValue? (c : Char) : Option Nat :=
  if c.isDigit then some (c.toNat - '0'.toNat)
  else if 'a' ≤ c ∧ c ≤ 'f' then some (c.toNat - 'a'.toNat + 10)
  else if 'A' ≤ c ∧ c ≤ 'F' then some (c.toNat - 'A'.toNat + 10)
  else none

def charOfHex? (digits : List Char) : Option Char := do
  let n ← digits.foldlM (fun n c => (hexValue? c).map (16 * n + ·)) 0
  if n.isValidChar then some (Char.ofNat n) else none

/-- The content of a literal behind its opening quote, and the text behind the closing one. -/
def decodeBody? : List Char → Option (List Char × List Char)
  | '"' :: rest => some ([], rest)
  | '\\' :: '\\' :: rest => found '\\' (decodeBody? rest)
  | '\\' :: '"' :: rest => found '"' (decodeBody? rest)
  | '\\' :: 'n' :: rest => found '\n' (decodeBody? rest)
  | '\\' :: 'r' :: rest => found '\r' (decodeBody? rest)
  | '\\' :: 't' :: rest => found '\t' (decodeBody? rest)
  | '\\' :: 'x' :: a :: b :: rest => do found (← charOfHex? [a, b]) (decodeBody? rest)
  | '\\' :: 'u' :: a :: b :: c :: d :: rest => do
    found (← charOfHex? [a, b, c, d]) (decodeBody? rest)
  | '\\' :: 'U' :: a :: b :: c :: d :: e :: f :: g :: h :: rest => do
    found (← charOfHex? [a, b, c, d, e, f, g, h]) (decodeBody? rest)
  | c :: rest => if c = '\\' ∨ c = '\n' ∨ c = '\r' then none else found c (decodeBody? rest)
  | [] => none
where
  found (c : Char) (more : Option (List Char × List Char)) : Option (List Char × List Char) :=
    more.map fun (cs, rest) => (c :: cs, rest)

/-- The content of the literal that the text starts with, and the text behind it. -/
def decode? : List Char → Option (List Char × List Char)
  | '"' :: rest => decodeBody? rest
  | _ => none

end TensorIR.Text.Quoted
