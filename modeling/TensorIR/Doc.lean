import TensorIR.Decimal.Shortest
import TensorIR.SymExpr.Printer
import TensorIR.Text.Quoted

/-!
Documents: the textual form of expressions, with names, literals, lists, tuples and calls.
-/

namespace TensorIR

inductive Doc where
  | id (name : String)
  | attr (value : Doc) (name : String)
  | str (text : String)
  | int (value : Int64)
  | uint (value : UInt64)
  | float (value : Binary64)
  | bool (value : Bool)
  | none
  | sym (expr : SymExpr)
  | list (items : List Doc)
  | tuple (items : List Doc)
  | call (callee : Doc) (args : List Doc) (kwargs : List (String × Doc))
  deriving Repr, Inhabited

namespace Doc

def dim (e : SymExpr) : Doc :=
  match e.value? with
  | some a => .int a
  | Option.none => .sym e

/--
The fewest digits that read back. Numbers from `1e-4` up to `1e16` are written positionally, and all
others but zero with an exponent. What is no finite number is written as a call.
-/
def floatText (x : Binary64) : String :=
  let sign := if x.isNegative then "-" else ""
  if x.isNaN then "float(\"nan\")"
  else if x.isInfinite then "float(\"" ++ sign ++ "inf\")"
  else if x.significand = 0 then sign ++ "0.0"
  else
    let d := Decimal.shortest x
    if -4 ≤ d.magnitude ∧ d.magnitude < 16 then sign ++ d.positional else sign ++ d.scientific

mutual

def text : Doc → String
  | .id name => name
  | .attr value name => value.text ++ "." ++ name
  | .str s => Text.Quoted.encode s
  | .int n => toString n.toInt
  | .uint n => toString n.toNat
  | .float x => floatText x
  | .bool b => if b then "True" else "False"
  | .none => "None"
  | .sym e => e.text
  | .list items => "[" ++ ", ".intercalate (texts items) ++ "]"
  | .tuple items =>
    let items := texts items
    "(" ++ ", ".intercalate items ++ (if items.length = 1 then ",)" else ")")
  | .call callee args kwargs =>
    callee.text ++ "(" ++ ", ".intercalate (texts args ++ keywordTexts kwargs) ++ ")"

def texts : List Doc → List String
  | [] => []
  | d :: ds => d.text :: texts ds

def keywordTexts : List (String × Doc) → List String
  | [] => []
  | (key, d) :: ds => (key ++ "=" ++ d.text) :: keywordTexts ds

end

end Doc

end TensorIR
