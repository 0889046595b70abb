/-!
Floating-point numbers of 64 bits, given by their bits: a sign, 11 bits of exponent and 52 bits of
fraction. A finite number is its sign and `significand * 2 ^ exponent`.
-/

namespace TensorIR

structure Binary64 where
  bits : UInt64
  deriving DecidableEq, Repr, Inhabited

namespace Binary64

def isNegative (x : Binary64) : Bool :=
  x.bits >>> 63 = 1

def biasedExponent (x : Binary64) : Nat :=
  (x.bits >>> 52 &&& 0x7ff).toNat

def fraction (x : Binary64) : Nat :=
  (x.bits &&& 0xfffffffffffff).toNat

def isNaN (x : Binary64) : Bool :=
  x.biasedExponent = 2047 && x.fraction ≠ 0

def isInfinite (x : Binary64) : Bool :=
  x.biasedExponent = 2047 && x.fraction = 0

def significand (x : Binary64) : Nat :=
  if x.biasedExponent = 0 then x.fraction else 0x10000000000000 + x.fraction

def exponent (x : Binary64) : Int :=
  max x.biasedExponent 1 - 1075

def hasNarrowGap (x : Binary64) : Bool :=
  x.fraction = 0 && 1 < x.biasedExponent

end Binary64

end TensorIR
