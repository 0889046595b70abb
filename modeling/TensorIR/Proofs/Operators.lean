import TensorIR.Operators
import TensorIR.Proofs.Inference

/-!
The rules of the built-in operators only add events, so inference with them returns the same from
every log.
-/

namespace TensorIR

namespace Conv2d

variable {op : String}

theorem addsEvents_tensorOperand (index : Nat) {operand : Infer (Option StructInfo)}
    (h : AddsEvents operand) : AddsEvents (tensorOperand op index operand) := by
  unfold tensorOperand
  apply h.bind
  intro info
  split
  · apply addsEvents_pure
  · apply addsEvents_throw

theorem addsEvents_tensorOperands {operands : List (Infer (Option StructInfo))}
    (h : ∀ x ∈ operands, AddsEvents x) : AddsEvents (tensorOperands op operands) := by
  unfold tensorOperands
  split
  · next data kernel =>
    apply (addsEvents_tensorOperand 0 (h data (by simp))).bind
    intro data
    apply (addsEvents_tensorOperand 1 (h kernel (by simp))).bind
    intro kernel
    apply addsEvents_pure
  · apply addsEvents_throw

theorem addsEvents_checkLayout (layout canonical role attr : String) :
    AddsEvents (checkLayout op layout canonical role attr) := by
  unfold checkLayout
  split
  · apply addsEvents_pure
  · apply addsEvents_throw

theorem addsEvents_checkRank (info : TensorInfo) (layout : Layout) (role : String) (index : Nat) :
    AddsEvents (checkRank op info layout role index) := by
  unfold checkRank
  split
  · apply addsEvents_pure
  · apply addsEvents_throw

theorem addsEvents_commonDtype (lhs rhs : DataType) : AddsEvents (commonDtype op lhs rhs) := by
  unfold commonDtype
  split
  · apply addsEvents_pure
  · split
    · apply addsEvents_pure
    · apply addsEvents_throw

theorem addsEvents_resultDtype (attrs : Conv2dAttrs) (data kernel : DataType) :
    AddsEvents (resultDtype op attrs data kernel) := by
  unfold resultDtype
  split
  · exact addsEvents_commonDtype data kernel
  · apply addsEvents_pure

theorem addsEvents_canonicalShape (conversion : LayoutConversion) (dims : List SymExpr) :
    AddsEvents (canonicalShape op conversion dims) := by
  unfold canonicalShape
  split
  · apply addsEvents_pure
  · apply addsEvents_throw

theorem addsEvents_resolveOperands {app : Application} (h : ∀ x ∈ app.operands, AddsEvents x)
    (sig : Signature) (attrs : Conv2dAttrs) : AddsEvents (resolveOperands app sig attrs) := by
  unfold resolveOperands
  apply (addsEvents_tensorOperands h).bind
  intro (data, kernel)
  apply (addsEvents_checkLayout _ _ _ _).bind
  intro dataLayout
  apply (addsEvents_checkLayout _ _ _ _).bind
  intro kernelLayout
  apply (addsEvents_checkLayout _ _ _ _).bind
  intro outLayout
  apply (addsEvents_checkRank _ _ _ _).bind
  intro _
  apply (addsEvents_checkRank _ _ _ _).bind
  intro _
  apply (addsEvents_resultDtype _ _ _).bind
  intro dtype
  split
  · apply (addsEvents_canonicalShape _ _).bind
    intro data
    apply (addsEvents_canonicalShape _ _).bind
    intro kernel
    apply addsEvents_pure
  · apply addsEvents_pure

theorem addsEvents_dimension (shape : List SymExpr) (index : Nat) :
    AddsEvents (dimension op shape index) := by
  unfold dimension
  split
  · apply addsEvents_pure
  · apply addsEvents_throw

theorem addsEvents_checkedSize (what : String) (size : SymExpr) :
    AddsEvents (checkedSize op what size) := by
  unfold checkedSize
  split
  · apply addsEvents_pure
  · apply addsEvents_throw

theorem addsEvents_spatialSize (data kernel : List SymExpr)
    (size : SpatialAxis → SymExpr → SymExpr → SymExpr) (axis : SpatialAxis) :
    AddsEvents (spatialSize op data kernel size axis) := by
  unfold spatialSize
  apply (addsEvents_dimension _ _).bind
  intro input
  apply (addsEvents_dimension _ _).bind
  intro window
  apply addsEvents_checkedSize

theorem addsEvents_outputInfo (out : LayoutConversion) (shape : List SymExpr) (dtype : DataType) :
    AddsEvents (outputInfo op out shape dtype) := by
  unfold outputInfo
  split
  · apply addsEvents_pure
  · apply addsEvents_throw

theorem addsEvents_inferForward {app : Application} (h : ∀ x ∈ app.operands, AddsEvents x) :
    AddsEvents (inferForward app) := by
  unfold inferForward
  dsimp only
  split
  · next attrs _ =>
    apply (addsEvents_resolveOperands h _ attrs).bind
    intro operands
    cases operands with
    | rankOnly info => apply addsEvents_pure
    | known data kernel out dtype =>
      apply (addsEvents_dimension kernel 0).bind
      intro channels
      apply (addsEvents_dimension data 0).bind
      intro batch
      apply (addsEvents_dimension data 1).bind
      intro dataChannels
      apply (addsEvents_dimension kernel 1).bind
      intro kernelChannels
      apply addsEvents_rejectIfProved.bind
      intro _
      apply addsEvents_rejectIfProved.bind
      intro _
      apply (addsEvents_spatialSize data kernel _ .height).bind
      intro height
      apply (addsEvents_spatialSize data kernel _ .width).bind
      intro width
      exact addsEvents_outputInfo out _ dtype
  · apply addsEvents_throw

theorem addsEvents_inferTranspose {app : Application} (h : ∀ x ∈ app.operands, AddsEvents x) :
    AddsEvents (inferTranspose app) := by
  unfold inferTranspose
  dsimp only
  split
  · next attrs _ =>
    apply (addsEvents_resolveOperands h _ attrs.conv).bind
    intro operands
    cases operands with
    | rankOnly info => apply addsEvents_pure
    | known data kernel out dtype =>
      apply (addsEvents_dimension kernel 0).bind
      intro inChannels
      apply (addsEvents_dimension data 0).bind
      intro batch
      apply (addsEvents_dimension data 1).bind
      intro dataChannels
      apply addsEvents_rejectIfProved.bind
      intro _
      apply addsEvents_rejectIfProved.bind
      intro _
      apply addsEvents_rejectIfProved.bind
      intro _
      apply (addsEvents_dimension kernel 1).bind
      intro perGroup
      apply (addsEvents_checkedSize _ _).bind
      intro channels
      apply (addsEvents_spatialSize data kernel _ .height).bind
      intro height
      apply (addsEvents_spatialSize data kernel _ .width).bind
      intro width
      exact addsEvents_outputInfo out _ dtype
  · apply addsEvents_throw

end Conv2d

theorem FusedCall.addsEvents_declaredOutput (op : String) (least most : Nat) (app : Application) :
    AddsEvents (declaredOutput op least most app) := by
  unfold declaredOutput
  dsimp only
  split
  · split
    · apply addsEvents_pure
    · apply addsEvents_throw
  · apply addsEvents_throw

namespace Registry

theorem ops_builtins : builtins.ops =
    [(FusedCall.packedName, OpDef.callPacked), (FusedCall.tirName, OpDef.callTir),
      (Conv2dAttrs.opName, OpDef.conv2d),
      (Conv2dTransposeAttrs.opName, OpDef.conv2dTranspose)] := rfl

theorem rulesAddEvents_builtins : builtins.RulesAddEvents := by
  apply RulesAddEvents.register
  · apply RulesAddEvents.register
    · apply RulesAddEvents.register
      · apply RulesAddEvents.register rulesAddEvents_empty
        intro rule hrule app h
        cases hrule
        exact Conv2d.addsEvents_inferForward h
      · intro rule hrule app h
        cases hrule
        exact Conv2d.addsEvents_inferTranspose h
    · intro rule hrule app _
      cases hrule
      exact FusedCall.addsEvents_declaredOutput _ _ _ app
  · intro rule hrule app _
    cases hrule
    exact FusedCall.addsEvents_declaredOutput _ _ _ app

end Registry

end TensorIR
