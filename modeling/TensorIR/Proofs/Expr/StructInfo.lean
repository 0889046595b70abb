import TensorIR.Expr.Printer
import TensorIR.Proofs.DataType
import TensorIR.Proofs.Doc.Reading

/-!
Struct info is told apart by what is printed of it, as long as its dimensions are literals and
symbols: the same text is printed for the same struct info only.
-/

namespace TensorIR

/-- A literal, or a symbol whose name is an identifier. -/
inductive SymExpr.IsPlain : SymExpr → Prop where
  | lit (a : Int64) : IsPlain (.lit a)
  | sym {s : Symbol} (hname : Doc.IsName s.name) : IsPlain (.sym s)

inductive TensorShape.IsPlain : TensorShape → Prop where
  | known {dims : List SymExpr} (h : ∀ e ∈ dims, e.IsPlain) : IsPlain (.known dims)
  | rank (n : UInt64) : IsPlain (.rank n)

/-- Struct info whose dimensions are literals and symbols. -/
inductive StructInfo.IsPlain : StructInfo → Prop where
  | tensor {shape : TensorShape} (t : DataType) (h : shape.IsPlain) : IsPlain (.tensor ⟨shape, t⟩)
  | dtensor {shape : TensorShape} (t : DataType) (mesh placement : String) (h : shape.IsPlain) :
    IsPlain (.dtensor ⟨shape, t⟩ mesh placement)
  | tuple {fields : List StructInfo} (h : ∀ info ∈ fields, info.IsPlain) : IsPlain (.tuple fields)
  | shape {shape : TensorShape} (h : shape.IsPlain) : IsPlain (.shape shape)
  | prim (t : DataType) : IsPlain (.prim t)
  | object : IsPlain .object

section Same

theorem isEqv_iff_map_eq {α β : Type} {r : α → α → Bool} {f : α → β} {as bs : List α}
    (h : ∀ a ∈ as, ∀ b ∈ bs, r a b = true ↔ f a = f b) :
    as.isEqv bs r = true ↔ as.map f = bs.map f := by
  induction as generalizing bs with
  | nil => cases bs <;> simp [List.isEqv]
  | cons a as ih =>
    cases bs with
    | nil => simp [List.isEqv]
    | cons b bs =>
      rw [List.isEqv, Bool.and_eq_true, h a (by simp) b (by simp),
        ih fun a ha b hb => h a (List.mem_cons_of_mem _ ha) b (List.mem_cons_of_mem _ hb),
        List.map_cons, List.map_cons, List.cons.injEq]

theorem SymExpr.sameDims_eq_isEqv (as bs : List SymExpr) :
    SymExpr.sameDims as bs = as.isEqv bs SymExpr.same := by
  induction as generalizing bs with
  | nil => cases bs <;> rfl
  | cons a as ih =>
    cases bs with
    | nil => rfl
    | cons b bs => rw [SymExpr.sameDims, List.isEqv, ih]

theorem StructInfo.sameFields_eq_isEqv (ss ts : List StructInfo) :
    StructInfo.sameFields ss ts = ss.isEqv ts StructInfo.same := by
  induction ss generalizing ts with
  | nil => cases ts <;> simp [StructInfo.sameFields, List.isEqv]
  | cons s ss ih =>
    cases ts with
    | nil => simp [StructInfo.sameFields, List.isEqv]
    | cons t ts => rw [StructInfo.sameFields, List.isEqv, ih]

end Same

theorem SymExpr.IsPlain.same_iff {e e' : SymExpr} (h : e.IsPlain) (h' : e'.IsPlain) :
    e.same e' = true ↔ (Doc.dim e).spelled = (Doc.dim e').spelled := by
  cases h <;> cases h' <;> simp [same, Doc.dim, value?, Doc.spelled]

theorem SymExpr.IsPlain.readable_dim {e : SymExpr} (h : e.IsPlain) :
    Doc.Readable [] (Doc.dim e).spelled := by
  cases h with
  | lit a => exact .int a
  | sym hname => exact .dotted (.id hname List.not_mem_nil)

namespace Printer

open Doc (spelled spelledAll spelledAll_eq_map spelledKeywords spelledKeywords_eq_map)

section Spelled

variable (p : Printer)

theorem builtin_eq_attr {name : String} (h : '.' ∉ name.toList) :
    p.builtin name = .attr (.id p.irPrefix) name := by
  rw [builtin, List.splitOn_eq_singleton h, List.map_singleton, String.ofList_toList]
  rfl

theorem spelled_builtin {name : String} (h : '.' ∉ name.toList) :
    (p.builtin name).spelled = .attr (.id p.irPrefix) name := by
  rw [p.builtin_eq_attr h]
  rfl

theorem infoDocs_eq_map (infos : List StructInfo) : p.infoDocs infos = infos.map p.infoDoc := by
  induction infos with
  | nil => simp [infoDocs]
  | cons info infos ih => rw [infoDocs, ih, List.map_cons]

/-- The element type of a tensor, unless it is not known. -/
def dtypeKeywords (t : DataType) : List (String × Doc) :=
  if t = .void then [] else [("dtype", .str t.text)]

theorem spelledKeywords_dtypeKeywords (t : DataType) :
    spelledKeywords (dtypeKeywords t) = dtypeKeywords t := by
  unfold dtypeKeywords
  split <;> rfl

theorem spelled_tensor_known (dims : List SymExpr) (t : DataType) :
    (p.infoDoc (.tensor ⟨.known dims, t⟩)).spelled =
      .call (.attr (.id p.irPrefix) "Tensor") [.tuple (spelledAll (dims.map .dim))]
        (dtypeKeywords t) := by
  have hdoc : p.infoDoc (.tensor ⟨.known dims, t⟩) =
      .call (p.builtin "Tensor") [shapeTuple dims] (dtypeKeywords t) := rfl
  rw [hdoc, spelled, p.spelled_builtin (by decide), spelledKeywords_dtypeKeywords]
  rfl

theorem spelled_tensor_rank (n : UInt64) (t : DataType) :
    (p.infoDoc (.tensor ⟨.rank n, t⟩)).spelled =
      .call (.attr (.id p.irPrefix) "Tensor") [] (dtypeKeywords t ++ [rankKeyword n]) := by
  have hdoc : p.infoDoc (.tensor ⟨.rank n, t⟩) =
      .call (p.builtin "Tensor") [] (dtypeKeywords t ++ [rankKeyword n]) := rfl
  rw [hdoc, spelled, p.spelled_builtin (by decide), spelledKeywords_eq_map, List.map_append,
    ← spelledKeywords_eq_map, spelledKeywords_dtypeKeywords]
  rfl

theorem spelled_dtensor_known (dims : List SymExpr) (t : DataType) (mesh placement : String) :
    (p.infoDoc (.dtensor ⟨.known dims, t⟩ mesh placement)).spelled =
      .call (.attr (.id p.irPrefix) "DTensor")
        [.tuple (spelledAll (dims.map .dim)), .str t.text, .str mesh, .str placement] [] := by
  rw [infoDoc, dtensorDoc, spelled, p.spelled_builtin (by decide)]
  rfl

theorem spelled_dtensor_rank (n : UInt64) (t : DataType) (mesh placement : String) :
    (p.infoDoc (.dtensor ⟨.rank n, t⟩ mesh placement)).spelled =
      .call (.attr (.id p.irPrefix) "DTensor")
        [.id "None", .str t.text, .str mesh, .str placement] [rankKeyword n] := by
  rw [infoDoc, dtensorDoc, spelled, p.spelled_builtin (by decide)]
  rfl

theorem spelled_tuple (fields : List StructInfo) :
    (p.infoDoc (.tuple fields)).spelled =
      .call (.attr (.id p.irPrefix) "Tuple") (fields.map fun info => (p.infoDoc info).spelled)
        [] := by
  rw [infoDoc, spelled, p.spelled_builtin (by decide), infoDocs_eq_map, spelledAll_eq_map,
    List.map_map]
  rfl

theorem spelled_shape_known (dims : List SymExpr) :
    (p.infoDoc (.shape (.known dims))).spelled =
      .call (.attr (.id p.irPrefix) "Shape") [.list (spelledAll (dims.map .dim))] [] := by
  rw [infoDoc, spelled, p.spelled_builtin (by decide)]
  rfl

theorem spelled_shape_rank (n : UInt64) :
    (p.infoDoc (.shape (.rank n))).spelled =
      .call (.attr (.id p.irPrefix) "Shape") [] [rankKeyword n] := by
  rw [infoDoc, spelled, p.spelled_builtin (by decide)]
  rfl

theorem spelled_prim (t : DataType) :
    (p.infoDoc (.prim t)).spelled = .call (.attr (.id p.irPrefix) "Prim") [.str t.text] [] := by
  rw [infoDoc, spelled, p.spelled_builtin (by decide)]
  rfl

theorem spelled_object : (p.infoDoc .object).spelled = .attr (.id p.irPrefix) "Object" := by
  rw [infoDoc, p.spelled_builtin (by decide)]

end Spelled

section Printed

variable {p : Printer}

theorem dtypeKeywords_inj {t u : DataType} : dtypeKeywords t = dtypeKeywords u ↔ t = u := by
  constructor
  · intro h
    unfold dtypeKeywords at h
    split at h <;> split at h <;> simp_all [DataType.text_eq_iff]
  · exact congrArg dtypeKeywords

theorem rankKeyword_inj {m n : UInt64} : rankKeyword m = rankKeyword n ↔ m = n := by
  constructor
  · intro h
    rw [rankKeyword, rankKeyword, Prod.mk.injEq, Doc.int.injEq] at h
    exact congrArg Int64.toUInt64 h.2
  · exact congrArg rankKeyword

theorem sameDims_iff {as bs : List SymExpr} (ha : ∀ e ∈ as, e.IsPlain) (hb : ∀ e ∈ bs, e.IsPlain) :
    SymExpr.sameDims as bs = true ↔ spelledAll (as.map .dim) = spelledAll (bs.map .dim) := by
  rw [spelledAll_eq_map, spelledAll_eq_map, List.map_map, List.map_map,
    SymExpr.sameDims_eq_isEqv]
  exact isEqv_iff_map_eq fun e he e' he' => (ha e he).same_iff (hb e' he')

def builtinName : StructInfo → String
  | .tensor _ => "Tensor"
  | .dtensor .. => "DTensor"
  | .tuple _ => "Tuple"
  | .shape _ => "Shape"
  | .prim _ => "Prim"
  | .object => "Object"

def calleeOf : Doc → Doc
  | .call callee _ _ => callee
  | d => d

theorem calleeOf_spelled_infoDoc (info : StructInfo) :
    calleeOf (p.infoDoc info).spelled = .attr (.id p.irPrefix) (builtinName info) := by
  cases info with
  | tensor t =>
    obtain ⟨dims | n, t⟩ := t
    · rw [spelled_tensor_known]
      rfl
    · rw [spelled_tensor_rank]
      rfl
  | dtensor t mesh placement =>
    obtain ⟨dims | n, t⟩ := t
    · rw [spelled_dtensor_known]
      rfl
    · rw [spelled_dtensor_rank]
      rfl
  | tuple fields =>
    rw [spelled_tuple]
    rfl
  | shape shape =>
    cases shape
    · rw [spelled_shape_known]
      rfl
    · rw [spelled_shape_rank]
      rfl
  | prim t =>
    rw [spelled_prim]
    rfl
  | object =>
    rw [spelled_object]
    rfl

theorem same_iff_of_builtinName_ne {info info' : StructInfo}
    (h : builtinName info ≠ builtinName info') :
    info.same info' = true ↔ (p.infoDoc info).spelled = (p.infoDoc info').spelled := by
  constructor
  · intro hsame
    cases info <;> cases info' <;> first | exact absurd rfl h | simp [StructInfo.same] at hsame
  · intro hdoc
    have hcallee := congrArg calleeOf hdoc
    rw [calleeOf_spelled_infoDoc, calleeOf_spelled_infoDoc, Doc.attr.injEq] at hcallee
    exact absurd hcallee.2 h

theorem tensor_same_iff {shape shape' : TensorShape} {t u : DataType} (h : shape.IsPlain)
    (h' : shape'.IsPlain) :
    (StructInfo.tensor ⟨shape, t⟩).same (.tensor ⟨shape', u⟩) = true ↔
      (p.infoDoc (.tensor ⟨shape, t⟩)).spelled = (p.infoDoc (.tensor ⟨shape', u⟩)).spelled := by
  cases h with
  | known hdims =>
    cases h' with
    | known hdims' =>
      simp [spelled_tensor_known, StructInfo.same, TensorInfo.same, TensorShape.same,
        sameDims_iff hdims hdims', dtypeKeywords_inj, and_comm]
    | rank n => simp [spelled_tensor_known, spelled_tensor_rank, StructInfo.same, TensorInfo.same,
      TensorShape.same]
  | rank m =>
    cases h' with
    | known hdims' =>
      simp [spelled_tensor_known, spelled_tensor_rank, StructInfo.same, TensorInfo.same,
        TensorShape.same]
    | rank n =>
      simp [spelled_tensor_rank, StructInfo.same, TensorInfo.same, TensorShape.same,
        dtypeKeywords_inj, rankKeyword_inj]

theorem dtensor_same_iff {shape shape' : TensorShape} {t u : DataType}
    {mesh mesh' placement placement' : String} (h : shape.IsPlain) (h' : shape'.IsPlain) :
    (StructInfo.dtensor ⟨shape, t⟩ mesh placement).same (.dtensor ⟨shape', u⟩ mesh' placement') =
        true ↔
      (p.infoDoc (.dtensor ⟨shape, t⟩ mesh placement)).spelled =
        (p.infoDoc (.dtensor ⟨shape', u⟩ mesh' placement')).spelled := by
  cases h with
  | known hdims =>
    cases h' with
    | known hdims' =>
      simp [spelled_dtensor_known, StructInfo.same, TensorInfo.same, TensorShape.same,
        sameDims_iff hdims hdims', DataType.text_eq_iff]
      grind
    | rank n =>
      simp [spelled_dtensor_known, spelled_dtensor_rank, StructInfo.same, TensorInfo.same,
        TensorShape.same]
  | rank m =>
    cases h' with
    | known hdims' =>
      simp [spelled_dtensor_known, spelled_dtensor_rank, StructInfo.same, TensorInfo.same,
        TensorShape.same]
    | rank n =>
      simp [spelled_dtensor_rank, StructInfo.same, TensorInfo.same, TensorShape.same,
        rankKeyword_inj, DataType.text_eq_iff]
      grind

theorem shape_same_iff {shape shape' : TensorShape} (h : shape.IsPlain) (h' : shape'.IsPlain) :
    (StructInfo.shape shape).same (.shape shape') = true ↔
      (p.infoDoc (.shape shape)).spelled = (p.infoDoc (.shape shape')).spelled := by
  cases h with
  | known hdims =>
    cases h' with
    | known hdims' =>
      simp [spelled_shape_known, StructInfo.same, TensorShape.same, sameDims_iff hdims hdims']
    | rank n => simp [spelled_shape_known, spelled_shape_rank, StructInfo.same, TensorShape.same]
  | rank m =>
    cases h' with
    | known hdims' =>
      simp [spelled_shape_known, spelled_shape_rank, StructInfo.same, TensorShape.same]
    | rank n => simp [spelled_shape_rank, StructInfo.same, TensorShape.same, rankKeyword_inj]

theorem same_iff {info info' : StructInfo} (h : info.IsPlain) (h' : info'.IsPlain) :
    info.same info' = true ↔ (p.infoDoc info).spelled = (p.infoDoc info').spelled := by
  induction h generalizing info' with
  | tensor t h =>
    cases h' with
    | tensor u h' => exact tensor_same_iff h h'
    | _ => exact same_iff_of_builtinName_ne (by simp [builtinName])
  | dtensor t mesh placement h =>
    cases h' with
    | dtensor u mesh' placement' h' => exact dtensor_same_iff h h'
    | _ => exact same_iff_of_builtinName_ne (by simp [builtinName])
  | @tuple fields h ih =>
    cases h' with
    | @tuple fields' h' =>
      rw [spelled_tuple, spelled_tuple, StructInfo.same, StructInfo.sameFields_eq_isEqv,
        isEqv_iff_map_eq fun info hinfo info' hinfo' => ih info hinfo (h' info' hinfo')]
      simp
    | _ => exact same_iff_of_builtinName_ne (by simp [builtinName])
  | shape h =>
    cases h' with
    | shape h' => exact shape_same_iff h h'
    | _ => exact same_iff_of_builtinName_ne (by simp [builtinName])
  | prim t =>
    cases h' with
    | prim u => simp [spelled_prim, StructInfo.same, DataType.text_eq_iff]
    | _ => exact same_iff_of_builtinName_ne (by simp [builtinName])
  | object =>
    cases h' with
    | object => simp [StructInfo.same]
    | _ => exact same_iff_of_builtinName_ne (by simp [builtinName])

theorem readable_dims {dims : List SymExpr} (h : ∀ e ∈ dims, e.IsPlain) :
    ∀ d ∈ spelledAll (dims.map .dim), Doc.Readable [] d := by
  rw [spelledAll_eq_map, List.map_map, List.forall_mem_map]
  exact fun e he => (h e he).readable_dim

theorem readable_dtypeKeywords (t : DataType) :
    ∀ kwarg ∈ dtypeKeywords t, Doc.IsName kwarg.1 ∧ Doc.Readable [] kwarg.2 := by
  have hname : Doc.IsName "dtype" := by decide
  unfold dtypeKeywords
  split
  · simp
  · exact List.forall_mem_singleton.2 ⟨hname, .str _⟩

theorem readable_rankKeyword (n : UInt64) :
    ∀ kwarg ∈ [rankKeyword n], Doc.IsName kwarg.1 ∧ Doc.Readable [] kwarg.2 := by
  have hname : Doc.IsName "ndim" := by decide
  exact List.forall_mem_singleton.2 ⟨hname, .int _⟩

theorem readable_call (hroot : Doc.IsName p.irPrefix) {name : String} (hname : Doc.IsName name)
    {args : List Doc} {kwargs : List (String × Doc)} (hargs : ∀ d ∈ args, Doc.Readable [] d)
    (hkwargs : ∀ kwarg ∈ kwargs, Doc.IsName kwarg.1 ∧ Doc.Readable [] kwarg.2) :
    Doc.Readable [] (.call (.attr (.id p.irPrefix) name) args kwargs) :=
  .call (.attr (.id hroot List.not_mem_nil) hname) hargs (fun kwarg h => (hkwargs kwarg h).1)
    fun kwarg h => (hkwargs kwarg h).2

theorem readable_spelled_infoDoc (hroot : Doc.IsName p.irPrefix) {info : StructInfo}
    (h : info.IsPlain) : Doc.Readable [] (p.infoDoc info).spelled := by
  induction h with
  | tensor t h =>
    cases h with
    | known h =>
      rw [spelled_tensor_known]
      exact readable_call hroot (by decide) (List.forall_mem_singleton.2 (.tuple (readable_dims h)))
        (readable_dtypeKeywords t)
    | rank n =>
      rw [spelled_tensor_rank]
      exact readable_call hroot (by decide) (by simp)
        (List.forall_mem_append.2 ⟨readable_dtypeKeywords t, readable_rankKeyword n⟩)
  | dtensor t mesh placement h =>
    have hstrings : ∀ d ∈ [Doc.str t.text, .str mesh, .str placement], Doc.Readable [] d := by
      simp [Doc.Readable.str]
    cases h with
    | known h =>
      rw [spelled_dtensor_known]
      exact readable_call hroot (by decide)
        (List.forall_mem_cons.2 ⟨.tuple (readable_dims h), hstrings⟩) (by simp)
    | rank n =>
      rw [spelled_dtensor_rank]
      exact readable_call hroot (by decide)
        (List.forall_mem_cons.2 ⟨.dotted (.id (by decide) List.not_mem_nil), hstrings⟩)
        (readable_rankKeyword n)
  | tuple h ih =>
    rw [spelled_tuple]
    exact readable_call hroot (by decide) (List.forall_mem_map.2 ih) (by simp)
  | shape h =>
    cases h with
    | known h =>
      rw [spelled_shape_known]
      exact readable_call hroot (by decide) (List.forall_mem_singleton.2 (.list (readable_dims h)))
        (by simp)
    | rank n =>
      rw [spelled_shape_rank]
      exact readable_call hroot (by decide) (by simp) (readable_rankKeyword n)
  | prim t =>
    rw [spelled_prim]
    exact readable_call hroot (by decide) (List.forall_mem_singleton.2 (.str _)) (by simp)
  | object =>
    rw [spelled_object]
    exact .dotted (.attr (.id hroot List.not_mem_nil) (by decide))

/-- Struct info is printed alike if and only if it is the same. -/
theorem printInfo_eq_iff (hroot : Doc.IsName p.irPrefix) {info info' : StructInfo}
    (h : info.IsPlain) (h' : info'.IsPlain) :
    p.printInfo info = p.printInfo info' ↔ info.same info' = true := by
  rw [same_iff h h']
  constructor
  · intro htext
    exact (readable_spelled_infoDoc hroot h).spelled_eq_of_text_eq
      (readable_spelled_infoDoc hroot h') htext
  · intro hspelled
    rw [printInfo, printInfo, ← Doc.text_spelled, hspelled, Doc.text_spelled]

/--
A dimension that is called `None` is not taken for a missing shape, and a symbol is the same
whatever is known of its sign.
-/
theorem printInfo_eq_iff_none :
    let named (dim : SymExpr) := StructInfo.tuple [.dtensor ⟨.known [dim], .void⟩ "mesh0" "R"]
    let unnamed := StructInfo.tuple [.dtensor ⟨.rank 1, .void⟩ "mesh0" "R"]
    let p : Printer := {}
    p.printInfo (named (.size "None")) = p.printInfo (named (.var "None")) ∧
      p.printInfo (named (.size "None")) ≠ p.printInfo unnamed := by
  have hname : Doc.IsName "None" := by decide
  have hnamed (nonneg : Bool) :
      StructInfo.IsPlain (.tuple [.dtensor ⟨.known [.sym ⟨"None", nonneg⟩], .void⟩ "mesh0" "R"]) :=
    .tuple (List.forall_mem_singleton.2
      (.dtensor _ _ _ (.known (List.forall_mem_singleton.2 (.sym hname)))))
  have hunnamed : StructInfo.IsPlain (.tuple [.dtensor ⟨.rank 1, .void⟩ "mesh0" "R"]) :=
    .tuple (List.forall_mem_singleton.2 (.dtensor _ _ _ (.rank 1)))
  have hroot : Doc.IsName (({} : Printer).irPrefix) := by decide
  refine ⟨(printInfo_eq_iff hroot (hnamed true) (hnamed false)).2 ?_, fun hprinted => ?_⟩
  · decide
  · have hsame := (printInfo_eq_iff hroot (hnamed true) hunnamed).1 hprinted
    exact absurd hsame (by decide)

end Printed

end Printer

end TensorIR
