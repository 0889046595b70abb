import TensorIR.Proofs.Conv2d.Stages
import TensorIR.Proofs.Layout.Literal

/-!
The sizes of a result where all dimensions of the operands are literals. The sizes that are computed
are literals too, or do not simplify. A size that is only taken over from an operand is not checked:
if the operand has that axis in two parts, the size is their product, and the product of two parts
may leave the range.
-/

namespace TensorIR.Conv2d

open SymExpr

section Constants

variable {input window : SymExpr} {a : Int64}

theorem canonicalize_sub_one (e : SymExpr) :
    (sub e (lit 1)).canonicalize = (add e.canonicalize (lit (-1))).canonicalize := by
  have hneg : (neg (lit 1)).canonicalize = (lit (-1)).canonicalize := by
    rw [canonicalize_neg, canonicalize_lit, canonicalize_lit]
    rfl
  rw [canonicalize_sub, canonicalize_lit, canonicalize_add,
    canonicalize_add, operands_bin_self, operands_bin_self,
    List.map_append, List.map_append]
  change sumOf (_ ++ [(neg (lit 1)).canonicalize]) = _
  rw [hneg]
  rfl

theorem constant_canonicalize_kernelReach (attrs : Conv2dAttrs) (axis : SpatialAxis)
    (h : window.Constant false) : (kernelReach attrs axis window).canonicalize.Constant false := by
  have hwindow : (sub window (lit 1)).canonicalize.Constant false := by
    rw [canonicalize_sub_one]
    apply constant_canonicalize
    exact ⟨rfl, constant_canonicalize h, trivial⟩
  change (mul (lit (attrs.dilation.get axis)) (sub window (lit 1))).canonicalize.Constant false
  rw [canonicalize_mul]
  change (productOf [(lit _).canonicalize, (sub window (lit 1)).canonicalize]).Constant _
  apply (rewrites_productOf _).constant
  rw [canonicalize_lit]
  exact ⟨rfl, trivial, hwindow⟩

theorem settled_simplify_outputSize {attrs : Conv2dAttrs} {axis : SpatialAxis}
    (hstride : 1 ≤ attrs.strides.get axis) (hinput : input.NumeratorTerm)
    (hwindow : window.Constant false) :
    (outputSize attrs axis input window).simplify.Settled := by
  have hpos : 0 < attrs.strides.get axis := by
    rw [Int64.le_iff_toInt_le, Int64.toInt_one] at hstride
    rw [Int64.lt_iff_toInt_lt, Int64.toInt_zero]
    omega
  have hpadded : (add input (paddingTotal attrs axis)).Numerator := by
    apply numerator_add_iff.2
    refine ⟨hinput.numerator, numerator_add_iff.2 ⟨?_, ?_⟩⟩
    · exact (NumeratorTerm.lit _).numerator
    · exact (NumeratorTerm.lit _).numerator
  apply settled_simplify_count hpos
  apply numerator_canonicalize_sub
  · apply numerator_canonicalize_sub
    · exact numerator_canonicalize hpadded
    · exact constant_canonicalize_kernelReach attrs axis hwindow
  · rw [canonicalize_lit]
    trivial

theorem settled_simplify_transposedSize {attrs : Conv2dTransposeAttrs} {axis : SpatialAxis}
    (hinput : input.Constant true) (hwindow : window.Constant true) :
    (transposedSize attrs axis input window).simplify.Settled := by
  apply settled_simplify
  have hpadding : (paddingTotal attrs.conv axis).Constant true := ⟨rfl, trivial, trivial⟩
  have hreach : (kernelReach attrs.conv axis window).Constant true :=
    ⟨rfl, trivial, rfl, hwindow, trivial⟩
  have hspread : ((input - lit 1) * lit (attrs.conv.strides.get axis)).Constant true :=
    ⟨rfl, ⟨rfl, hinput, trivial⟩, trivial⟩
  exact ⟨rfl, ⟨rfl, ⟨rfl, ⟨rfl, hspread, hpadding⟩, hreach⟩, trivial⟩, trivial⟩

end Constants

section Sizes

variable {dir : Direction} {attrs : Conv2dTransposeAttrs} {dataLayout kernelLayout : Layout}
  {dataDims kernelDims : List Int64} {size : Char → SymExpr}

theorem numeratorTerm_canonicalSize {layout : Layout} (hlayout : Axis.AllWellFormed layout.axes)
    {c : Char} (hc : c.isUpper = true) (dims : List Int64) :
    (canonicalSize layout (dims.map lit) c).NumeratorTerm ∧
      (canonicalSize layout (dims.map lit) c).Constant false := by
  unfold canonicalSize
  rcases Layout.simplify_logicalSize_lits hlayout hc dims with ⟨a, ha, _⟩ | ⟨a, b, hproduct, _⟩
  · rw [ha]
    exact ⟨.lit a, trivial⟩
  · rw [hproduct]
    exact ⟨.mul a b, rfl, trivial, trivial⟩

theorem settled_sizeExpr (hstrides : ∀ axis, 1 ≤ attrs.conv.strides.get axis)
    (hdata : Axis.AllWellFormed dataLayout.axes) (hkernel : Axis.AllWellFormed kernelLayout.axes)
    {c : Char} (hc : c ∈ dir.computedAxes) :
    (dir.sizeExpr attrs (canonicalSize dataLayout (dataDims.map lit))
      (canonicalSize kernelLayout (kernelDims.map lit)) c).simplify.Settled := by
  have hd {c : Char} (hc : c.isUpper = true) := numeratorTerm_canonicalSize hdata hc dataDims
  have hk {c : Char} (hc : c.isUpper = true) := numeratorTerm_canonicalSize hkernel hc kernelDims
  cases dir with
  | forward =>
    simp only [Direction.computedAxes, List.mem_cons, List.not_mem_nil, or_false] at hc
    rcases hc with rfl | rfl
    · exact settled_simplify_outputSize (hstrides _) (hd (by decide)).1 (hk (by decide)).2
    · exact settled_simplify_outputSize (hstrides _) (hd (by decide)).1 (hk (by decide)).2
  | transpose =>
    simp only [Direction.computedAxes, List.mem_cons, List.not_mem_nil, or_false] at hc
    rcases hc with rfl | rfl | rfl
    · exact settled_simplify ⟨rfl, (hk (by decide)).2.toSigned, trivial⟩
    · exact settled_simplify_transposedSize (hd (by decide)).2.toSigned (hk (by decide)).2.toSigned
    · exact settled_simplify_transposedSize (hd (by decide)).2.toSigned (hk (by decide)).2.toSigned

/-- Computed sizes are literals; the others are sizes of the operands. -/
theorem exists_resultSize_lits (hstrides : ∀ axis, 1 ≤ attrs.conv.strides.get axis)
    (hdata : Axis.AllWellFormed dataLayout.axes) (hkernel : Axis.AllWellFormed kernelLayout.axes)
    (h : Returns (dir.sizes attrs (canonicalSize dataLayout (dataDims.map lit))
      (canonicalSize kernelLayout (kernelDims.map lit))) size) :
    ∃ channels height width,
      size = resultSize (canonicalSize dataLayout (dataDims.map lit) 'N') channels (lit height)
        (lit width) ∧
      match dir with
      | .forward => channels = canonicalSize kernelLayout (kernelDims.map lit) 'O'
      | .transpose => ∃ a, channels = lit a := by
  have hlit {c : Char} {s : SymExpr} (hc : c ∈ dir.computedAxes)
      (hs : (dir.sizeExpr attrs (canonicalSize dataLayout (dataDims.map lit))
        (canonicalSize kernelLayout (kernelDims.map lit)) c).checkedSimplify? = some s) :
      ∃ a, s = lit a :=
    eq_lit_of_checkedSimplify? (settled_sizeExpr hstrides hdata hkernel hc) hs
  cases dir with
  | forward =>
    obtain ⟨_, _, _, _, hheight, hwidth, rfl⟩ := returns_sizes_forward h
    obtain ⟨height, rfl⟩ := hlit (c := 'H') (by decide) hheight
    obtain ⟨width, rfl⟩ := hlit (c := 'W') (by decide) hwidth
    exact ⟨_, height, width, rfl, rfl⟩
  | transpose =>
    obtain ⟨_, _, _, _, _, hchannels, hheight, hwidth, rfl⟩ := returns_sizes_transpose h
    obtain ⟨channels, rfl⟩ := hlit (c := 'C') (by decide) hchannels
    obtain ⟨height, rfl⟩ := hlit (c := 'H') (by decide) hheight
    obtain ⟨width, rfl⟩ := hlit (c := 'W') (by decide) hwidth
    exact ⟨_, height, width, rfl, channels, rfl⟩

theorem forall_shapeOf_resultSize_iff {out : LayoutConversion} {layout : String}
    (hout : layoutConversion layout canonicalData = .ok out)
    (hstrides : ∀ axis, 1 ≤ attrs.conv.strides.get axis)
    (hdata : Axis.AllWellFormed dataLayout.axes) (hkernel : Axis.AllWellFormed kernelLayout.axes)
    (h : Returns (dir.sizes attrs (canonicalSize dataLayout (dataDims.map lit))
      (canonicalSize kernelLayout (kernelDims.map lit))) size) :
    (∀ e ∈ out.src.shapeOf size, ∃ a, e = lit a) ↔
      dataLayout.Resolves dataDims 'N' out.src 'N' ∧
      (dir = .forward → kernelLayout.Resolves kernelDims 'O' out.src 'C') := by
  obtain ⟨channels, height, width, hsize, hchannels⟩ :=
    exists_resultSize_lits hstrides hdata hkernel h
  have haxes := Layout.allWellFormed_of_parse (layoutConversion_eq_ok hout).1
  have hperm := perm_primalLetters_canonicalData hout
  have hbatch : size 'N' = canonicalSize dataLayout (dataDims.map lit) 'N' := by rw [hsize]; rfl
  have hfilters : size 'C' = channels := by rw [hsize]; rfl
  have hheight : size 'H' = lit height := by rw [hsize]; rfl
  have hwidth : size 'W' = lit width := by rw [hsize]; rfl
  have hN := Layout.exists_simplify_axisSize_eq_lit_iff haxes (by decide) hdata (by decide) hbatch
  have hH := Layout.exists_simplify_axisSize_eq_lit haxes (by decide) hheight
  have hW := Layout.exists_simplify_axisSize_eq_lit haxes (by decide) hwidth
  have hC : (∃ a, (out.src.axisSize size (.primal 'C')).simplify = lit a) ↔
      (dir = .forward → kernelLayout.Resolves kernelDims 'O' out.src 'C') := by
    cases dir with
    | forward =>
      rw [hchannels] at hfilters
      rw [Layout.exists_simplify_axisSize_eq_lit_iff haxes (by decide) hkernel (by decide) hfilters]
      exact ⟨fun h _ => h, fun h => h rfl⟩
    | transpose =>
      obtain ⟨a, rfl⟩ := hchannels
      exact ⟨nofun, fun _ => Layout.exists_simplify_axisSize_eq_lit haxes (by decide) hfilters⟩
  rw [Layout.forall_shapeOf_eq_lit_iff]
  simp only [hperm.mem_iff, List.forall_mem_cons, List.not_mem_nil, false_implies, implies_true,
    and_true, hN, hC, hH, hW]

end Sizes

end TensorIR.Conv2d
