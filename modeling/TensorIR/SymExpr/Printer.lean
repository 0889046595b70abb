import TensorIR.SymExpr.Basic

/-!
The text of a symbolic expression: infix operators with the fewest parentheses, and `ceil_div(a, b)`
for division rounded up.
-/

namespace TensorIR

def BinOp.text : BinOp → String
  | .add => "+"
  | .sub => "-"
  | .mul => "*"
  | .div => "//"
  | .ceilDiv => "ceil_div"
  | .mod => "%"

namespace SymExpr

def precedence : SymExpr → Nat
  | .bin .add _ _ | .bin .sub _ _ => 1
  | .bin .mul _ _ | .bin .div _ _ | .bin .mod _ _ => 3
  | .neg _ => 4
  | .bin .ceilDiv _ _ | .lit _ | .sym _ => 5

def parenthesize (parens : Bool) (text : String) : String :=
  if parens then "(" ++ text ++ ")" else text

def continues (op : BinOp) : SymExpr → Bool
  | .bin op' _ _ => op.isAssocComm && op' == op
  | _ => false

def textWith (symText : Symbol → String) : SymExpr → String
  | .lit a => toString a.toInt
  | .sym s => symText s
  | .neg e => "-" ++ parenthesize (e.precedence < 4) (e.textWith symText)
  | .bin .ceilDiv l r => "ceil_div(" ++ l.textWith symText ++ ", " ++ r.textWith symText ++ ")"
  | .bin op l r =>
    let prec := (bin op l r).precedence
    let parensRight := r.precedence < prec || (r.precedence == prec && !r.continues op)
    parenthesize (l.precedence < prec) (l.textWith symText) ++ " " ++ op.text ++ " " ++
      parenthesize parensRight (r.textWith symText)

def text (e : SymExpr) : String :=
  e.textWith Symbol.name

/-- The text that also shows which symbols are known to be sizes: `"n"u` is one, `"n"i` is not. -/
def inspect (e : SymExpr) : String :=
  e.textWith fun s => "\"" ++ s.name ++ "\"" ++ (if s.nonneg then "u" else "i")

end SymExpr

end TensorIR
