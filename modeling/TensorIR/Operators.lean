import TensorIR.Conv2d.Inference
import TensorIR.FusedCall

/-!
The built-in operators.
-/

namespace TensorIR

def Conv2d.arguments : List OpArgument :=
  [⟨"data", "Tensor", "The input tensor."⟩, ⟨"weight", "Tensor", "The weight tensor."⟩]

namespace OpDef

def conv2d : OpDef where
  numInputs := some 2
  arguments := Conv2d.arguments
  attrsType := some Conv2dAttrs.typeKey
  rule := some Conv2d.inferForward

def conv2dTranspose : OpDef where
  numInputs := some 2
  arguments := Conv2d.arguments
  attrsType := some Conv2dTransposeAttrs.typeKey
  rule := some Conv2d.inferTranspose

def callTir : OpDef where
  arguments := [
    ⟨"gvar", "GlobalVar", "The global variable of the PrimFunc."⟩,
    ⟨"args", "Tuple", "The input arguments."⟩,
    ⟨"packed_ints", "Shape", "Symbolic shape variables passed to the PrimFunc."⟩]
  rule := some FusedCall.inferTir

def callPacked : OpDef where
  numInputs := some 2
  arguments := [
    ⟨"func", "Expr", "The destination-passing-style function."⟩,
    ⟨"args", "Tuple", "The input arguments."⟩]
  rule := some FusedCall.inferPacked

def builtins : List (String × OpDef) :=
  [(Conv2dAttrs.opName, conv2d), (Conv2dTransposeAttrs.opName, conv2dTranspose),
    (FusedCall.tirName, callTir), (FusedCall.packedName, callPacked)]

end OpDef

def Registry.builtins : Registry :=
  OpDef.builtins.foldl (fun reg (name, op) => reg.register name op) .empty

end TensorIR
