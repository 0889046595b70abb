import TensorIR.Proofs.Conv2d.Stages
import TensorIR.Proofs.Expr.Keywords
import TensorIR.Proofs.Expr.StructInfo
import TensorIR.Proofs.Text.Literal

/-!
Convolutions are read back from their text. The keywords of a record are read from the right: a
value begins behind the last equals sign that no quotes contain, and its name behind the last space.
So it does not matter what the operators are written as.
-/

namespace TensorIR

open Doc

namespace Printer

section Values

variable {left left' right right' : List Char} {c : Char}

/-- A text is cut in one place if neither end of it contains the other one behind a separator. -/
theorem append_cons_inj (hright : ∀ before, right ≠ before ++ c :: right')
    (hright' : ∀ before, right' ≠ before ++ c :: right)
    (h : left ++ c :: right = left' ++ c :: right') : left = left' ∧ right = right' := by
  rcases List.append_eq_append_iff.1 h with ⟨more, hleft, hmore⟩ | ⟨more, hleft, hmore⟩
  · cases more with
    | nil => exact ⟨by simpa using hleft.symm, by simpa using hmore⟩
    | cons d more => exact absurd (List.cons.inj hmore).2 (hright more)
  · cases more with
    | nil => exact ⟨by simpa using hleft, by simpa using hmore.symm⟩
    | cons d more => exact absurd (List.cons.inj hmore).2 (hright' more)

theorem ne_append_cons_of_notMem (h : c ∉ right) (before : List Char) :
    right ≠ before ++ c :: right' := by
  rintro rfl
  simp at h

/-- The values of fields are written as literals, or without quotes and equals signs. -/
inductive FieldText : List Char → Prop where
  | literal {text : List Char} (h : Text.Quoted.IsLiteral text) : FieldText text
  | numbers {text : List Char} (hne : text ≠ []) (hquote : '"' ∉ text) (hequals : '=' ∉ text) :
    FieldText text

theorem FieldText.ne_append_cons (h : FieldText right) (h' : FieldText right')
    (before : List Char) : right ≠ before ++ '=' :: right' := by
  cases h with
  | numbers _ _ hequals => exact ne_append_cons_of_notMem hequals before
  | literal h =>
    cases h' with
    | literal h' => exact h.ne_append_cons h' (by decide) (by decide)
    | numbers hne hquote _ =>
      rintro rfl
      obtain ⟨content, hcontent, _⟩ := h
      have hlast := congrArg List.getLast? hcontent
      rw [List.getLast?_append_of_ne_nil _ (List.cons_ne_nil _ _), List.getLast?_cons_of_ne_nil hne,
        ← List.cons_append, List.getLast?_concat] at hlast
      exact hquote (List.mem_of_getLast? hlast)

theorem notMem_intercalate {ss : List (List Char)} (hc : c ∉ [',', ' ']) (h : ∀ s ∈ ss, c ∉ s) :
    c ∉ [',', ' '].intercalate ss := by
  cases ss with
  | nil => simp
  | cons s ss =>
    rw [List.forall_mem_cons] at h
    rw [intercalate_cons, List.mem_append, List.mem_flatMap]
    rintro (hmem | ⟨s', hs', hmem⟩)
    · exact h.1 hmem
    · rcases List.mem_append.1 (show c ∈ [',', ' '] ++ s' from hmem) with hmem | hmem
      · exact hc hmem
      · exact h.2 s' hs' hmem

theorem fieldText_fieldDoc (value : FieldValue) : FieldText (fieldDoc value).text.toList := by
  have hfree {c : Char} {n : Int} (hc : (c.isDigit || c == '-') = false) :
      c ∉ (toString n).toList := by
    intro hmem
    rw [isDigit_or_minus_of_mem_toString n c hmem] at hc
    cases hc
  cases value with
  | str s =>
    rw [fieldDoc, text]
    exact .literal (Text.Quoted.isLiteral_encode s)
  | dtype t =>
    rw [fieldDoc, text]
    exact .literal (Text.Quoted.isLiteral_encode t.text)
  | int n =>
    obtain ⟨c, hc, _⟩ := opensWith_toString n.toInt64.toInt
    rw [fieldDoc, text]
    exact .numbers (List.ne_nil_of_mem (List.mem_of_mem_head? hc)) (hfree (by decide))
      (hfree (by decide))
  | ints values =>
    have hlist {c : Char} (hc : (c.isDigit || c == '-') = false) (hseparator : c ∉ [',', ' '])
        (hbracket : c ∉ ['[', ']']) : c ∉ (fieldDoc (.ints values)).text.toList := by
      have hitems : c ∉ [',', ' '].intercalate
          ((values.map Doc.int).map fun d => d.text.toList) := by
        refine notMem_intercalate hseparator (List.forall_mem_map.2 (List.forall_mem_map.2 ?_))
        intro n _
        rw [text]
        exact hfree hc
      rw [fieldDoc, toList_text_list, List.mem_cons, List.mem_append, List.mem_singleton]
      rintro (rfl | hmem | rfl)
      · exact hbracket (by simp)
      · exact hitems hmem
      · exact hbracket (by simp)
    refine .numbers ?_ (hlist (by decide) (by decide) (by decide))
      (hlist (by decide) (by decide) (by decide))
    rw [fieldDoc, toList_text_list]
    exact List.cons_ne_nil _ _

theorem readable_fieldDoc (value : FieldValue) : Readable [] (fieldDoc value) := by
  cases value with
  | str s => exact .str s
  | dtype t => exact .str t.text
  | int n => exact .int n.toInt64
  | ints values => exact .list (List.forall_mem_map.2 fun n _ => .int n)

end Values

section Keywords

variable {left left' : List Char} {kwarg kwarg' : String × Doc}
  {kwargs kwargs' : List (String × Doc)}

/-- A keyword of a record. -/
structure IsRecordKeyword (kwarg : String × Doc) : Prop where
  not_mem : ' ' ∉ kwarg.1.toList
  exists_value : ∃ value, kwarg.2 = fieldDoc value

def itemText (kwarg : String × Doc) : List Char :=
  ',' :: ' ' :: argumentText (some kwarg.1, kwarg.2)

theorem IsRecordKeyword.append_inj (h : IsRecordKeyword kwarg) (h' : IsRecordKeyword kwarg')
    (htext : left ++ itemText kwarg = left' ++ itemText kwarg') :
    left = left' ∧ kwarg = kwarg' := by
  obtain ⟨key, d⟩ := kwarg
  obtain ⟨key', d'⟩ := kwarg'
  obtain ⟨value, rfl⟩ : ∃ value, d = fieldDoc value := h.exists_value
  obtain ⟨value', rfl⟩ : ∃ value, d' = fieldDoc value := h'.exists_value
  have hvalues : (left ++ ',' :: ' ' :: key.toList) ++ '=' :: (fieldDoc value).text.toList =
      (left' ++ ',' :: ' ' :: key'.toList) ++ '=' :: (fieldDoc value').text.toList := by
    simpa [itemText, argumentText] using htext
  obtain ⟨hkeys, hvalue⟩ := append_cons_inj
    (fun before => (fieldText_fieldDoc value).ne_append_cons (fieldText_fieldDoc value') before)
    (fun before => (fieldText_fieldDoc value').ne_append_cons (fieldText_fieldDoc value) before)
    hvalues
  have hkeys : (left ++ [',']) ++ ' ' :: key.toList = (left' ++ [',']) ++ ' ' :: key'.toList := by
    simpa using hkeys
  obtain ⟨hleft, hkey⟩ := append_cons_inj (ne_append_cons_of_notMem h.not_mem)
    (ne_append_cons_of_notMem h'.not_mem) hkeys
  refine ⟨List.append_cancel_right hleft, Prod.ext (String.toList_inj.1 hkey) ?_⟩
  exact eq_of_text_eq (readable_fieldDoc value) (readable_fieldDoc value')
    (String.toList_inj.1 hvalue)

theorem flatMap_itemText_inj (hlength : kwargs.length = kwargs'.length)
    (h : ∀ kwarg ∈ kwargs, IsRecordKeyword kwarg) (h' : ∀ kwarg ∈ kwargs', IsRecordKeyword kwarg)
    (htext : left ++ kwargs.flatMap itemText = left' ++ kwargs'.flatMap itemText) :
    left = left' ∧ kwargs = kwargs' := by
  induction kwargs generalizing kwargs' left left' with
  | nil =>
    rw [List.eq_nil_of_length_eq_zero hlength.symm] at htext ⊢
    simpa using htext
  | cons kwarg kwargs ih =>
    cases kwargs' with
    | nil => cases hlength
    | cons kwarg' kwargs' =>
      rw [List.forall_mem_cons] at h h'
      rw [List.flatMap_cons, List.flatMap_cons, ← List.append_assoc, ← List.append_assoc] at htext
      obtain ⟨hitem, rfl⟩ := ih (Nat.succ.inj hlength) h.2 h'.2 htext
      obtain ⟨rfl, rfl⟩ := h.1.append_inj h'.1 hitem
      exact ⟨rfl, rfl⟩

end Keywords

section Records

variable {value value' : FieldValue} {record record' : List (String × FieldValue)}

theorem fieldDoc_inj (hkind : value.kindName = value'.kindName)
    (h : fieldDoc value = fieldDoc value') : value = value' := by
  cases value with
  | ints values =>
    cases value' with
    | ints values' =>
      rw [List.map_injective_iff.2 (fun _ _ => Doc.int.inj) (Doc.list.inj h)]
    | _ => cases h
  | int n =>
    cases value' with
    | int n' =>
      have hn := congrArg Int64.toInt (Doc.int.inj h)
      rw [Int32.toInt_toInt64, Int32.toInt_toInt64] at hn
      rw [Int32.toInt_inj.1 hn]
    | _ => cases h
  | str s =>
    cases value' with
    | str s' => rw [Doc.str.inj h]
    | dtype t' => exact absurd hkind (show "string" ≠ "dtype" by decide)
    | _ => cases h
  | dtype t =>
    cases value' with
    | str s' => exact absurd hkind (show "dtype" ≠ "string" by decide)
    | dtype t' => rw [DataType.text_eq_iff.1 (Doc.str.inj h)]
    | _ => cases h

theorem recordKeywords_inj
    (hkinds : record.map (·.2.kindName) = record'.map (·.2.kindName))
    (h : recordKeywords record = recordKeywords record') : record = record' := by
  induction record generalizing record' with
  | nil => exact (List.map_eq_nil_iff.1 hkinds.symm).symm
  | cons field record ih =>
    cases record' with
    | nil => cases hkinds
    | cons field' record' =>
      obtain ⟨hkind, hkinds⟩ := List.cons.inj hkinds
      obtain ⟨hfield, h⟩ := List.cons.inj h
      obtain ⟨hkey, hdoc⟩ := Prod.mk.inj hfield
      rw [ih hkinds h, Prod.ext hkey (fieldDoc_inj hkind hdoc)]

end Records

end Printer

theorem PerAxis.toList_inj {x y : PerAxis} : x.toList = y.toList ↔ x = y := by
  cases x
  cases y
  simp [toList]

theorem Padding.toList_inj {x y : Padding} : x.toList = y.toList ↔ x = y := by
  cases x
  cases y
  simp [toList]

theorem Conv2dAttrs.fields_inj {attrs attrs' : Conv2dAttrs} :
    attrs.fields = attrs'.fields ↔ attrs = attrs' := by
  cases attrs
  cases attrs'
  simp [fields, trailingFields, PerAxis.toList_inj, Padding.toList_inj]

theorem Conv2dTransposeAttrs.fields_inj {attrs attrs' : Conv2dTransposeAttrs} :
    attrs.fields = attrs'.fields ↔ attrs = attrs' := by
  obtain ⟨conv, outputPadding⟩ := attrs
  obtain ⟨conv', outputPadding'⟩ := attrs'
  rw [mk.injEq, ← Conv2dAttrs.fields_inj]
  simp [fields, Conv2dAttrs.fields, PerAxis.toList_inj]
  tauto

namespace Conv2d.Direction

variable {dir : Direction} {attrs attrs' : Conv2dTransposeAttrs}

/-- The fields of the record that a call has. -/
def fields : Direction → Conv2dTransposeAttrs → List (String × FieldValue)
  | .forward, attrs => attrs.conv.fields
  | .transpose, attrs => attrs.fields

theorem record_eq_of_recordKeywords
    (h : Printer.recordKeywords (dir.fields attrs) = Printer.recordKeywords (dir.fields attrs')) :
    dir.record attrs = dir.record attrs' := by
  cases dir with
  | forward =>
    have hkinds : (attrs.conv.fields.map fun field => field.2.kindName) =
        attrs'.conv.fields.map fun field => field.2.kindName := rfl
    have hfields := Printer.recordKeywords_inj hkinds h
    rw [record, record, Conv2dAttrs.fields_inj.1 hfields]
  | transpose =>
    have hkinds : (attrs.fields.map fun field => field.2.kindName) =
        attrs'.fields.map fun field => field.2.kindName := rfl
    have hfields := Printer.recordKeywords_inj hkinds h
    rw [record, record, Conv2dTransposeAttrs.fields_inj.1 hfields]

end Conv2d.Direction

namespace Printer

open Conv2d (Direction)

theorem isRecordKeyword_of_mem (dir : Direction) (attrs : Conv2dTransposeAttrs) :
    ∀ kwarg ∈ recordKeywords (dir.fields attrs), IsRecordKeyword kwarg := by
  have hkeys : ∀ field ∈ dir.fields attrs, ' ' ∉ field.1.toList := by
    cases dir <;> simp [Direction.fields, Conv2dAttrs.fields, Conv2dTransposeAttrs.fields,
      Conv2dAttrs.trailingFields]
  rw [recordKeywords, List.forall_mem_map]
  intro field hfield
  exact ⟨hkeys field hfield, field.2, rfl⟩

theorem printCall_convolution (p : Printer) (dir : Direction) (x w : String)
    (ix iw : Option StructInfo) (attrs : Conv2dTransposeAttrs) :
    p.printCall (dir.call (.var x ix) (.var w iw) attrs) =
      .ok (Doc.call (p.opRef dir.signature.op) [.id x, .id w]
        (recordKeywords (dir.fields attrs))).text := by
  have hprints : printsAttrs (.op dir.signature.op) = true := by
    cases dir <;> decide
  rw [printCall, Direction.call, callDoc_eq hprints]
  cases dir <;> rfl

/-- What stands in front of the keywords of a call of a function with two variables. -/
def callStart (f : Doc) (x w : String) : List Char :=
  f.text.toList ++ '(' :: (x.toList ++ ',' :: ' ' :: w.toList)

theorem toList_text_call_vars (f : Doc) (x w : String) (kwargs : List (String × Doc)) :
    (Doc.call f [.id x, .id w] kwargs).text.toList =
      callStart f x w ++ kwargs.flatMap itemText ++ [')'] := by
  have hitem : itemText = fun kwarg => ',' :: ' ' :: argumentText (some kwarg.1, kwarg.2) := rfl
  rw [toList_text_call, arguments, List.map_cons, List.cons_append, List.map_cons,
    intercalate_cons]
  simp [callStart, argumentText, text, hitem, List.flatMap_map, Function.comp_def]

theorem callStart_inj {f : Doc} {x w x' w' : String} (hx : ',' ∉ x.toList) (hx' : ',' ∉ x'.toList)
    (h : callStart f x w = callStart f x' w') : x = x' ∧ w = w' := by
  rw [callStart, callStart, List.append_cancel_left_eq] at h
  obtain ⟨hx, hw⟩ := cut_inj hx hx' (List.cons.inj h).2
  exact ⟨String.toList_inj.1 hx, String.toList_inj.1 (List.cons.inj hw).2⟩

/-- Only transposed convolutions have a keyword between the padding and the dilation. -/
theorem flatMap_itemText_ne (left left' : List Char) (attrs attrs' : Conv2dTransposeAttrs) :
    left ++ (recordKeywords (Direction.forward.fields attrs)).flatMap itemText ≠
      left' ++ (recordKeywords (Direction.transpose.fields attrs')).flatMap itemText := by
  intro h
  -- Behind the strides of the one stand as many keywords as behind the padding of the other.
  rw [← List.take_append_drop 1 (recordKeywords (Direction.forward.fields attrs)),
    ← List.take_append_drop 2 (recordKeywords (Direction.transpose.fields attrs')),
    List.flatMap_append, List.flatMap_append, ← List.append_assoc, ← List.append_assoc] at h
  have hlength : ((recordKeywords (Direction.forward.fields attrs)).drop 1).length =
      ((recordKeywords (Direction.transpose.fields attrs')).drop 2).length := rfl
  obtain ⟨_, hkwargs⟩ := flatMap_itemText_inj hlength
    (fun kwarg hkwarg => isRecordKeyword_of_mem .forward attrs kwarg (List.mem_of_mem_drop hkwarg))
    (fun kwarg hkwarg =>
      isRecordKeyword_of_mem .transpose attrs' kwarg (List.mem_of_mem_drop hkwarg)) h
  have hkey : "padding" = "output_padding" := (Prod.mk.inj (List.cons.inj hkwargs).1).1
  exact absurd hkey (by decide)

/--
The text of a convolution of two variables tells the operator, the variables and all fields of the
record, whatever strings the layouts are, and whatever the printer writes operators as. A name with
a comma in it would not be read back; identifiers have none.
-/
theorem printCall_convolution_inj (p : Printer) (dir dir' : Direction) {x x' : String}
    (hx : ',' ∉ x.toList) (hx' : ',' ∉ x'.toList) (w w' : String)
    (ix iw ix' iw' : Option StructInfo) (attrs attrs' : Conv2dTransposeAttrs) :
    let call := dir.call (.var x ix) (.var w iw) attrs
    let call' := dir'.call (.var x' ix') (.var w' iw') attrs'
    (∃ text, p.printCall call = .ok text) ∧
      (p.printCall call = p.printCall call' →
        dir = dir' ∧ x = x' ∧ w = w' ∧ dir.record attrs = dir'.record attrs') := by
  intro call call'
  rw [printCall_convolution, printCall_convolution]
  refine ⟨⟨_, rfl⟩, fun h => ?_⟩
  have htext := congrArg String.toList (Except.ok.inj h)
  rw [toList_text_call_vars, toList_text_call_vars] at htext
  have htext := List.append_cancel_right htext
  have hdir : dir = dir' := by
    cases dir <;> cases dir'
    · rfl
    · exact absurd htext (flatMap_itemText_ne _ _ attrs attrs')
    · exact absurd htext.symm (flatMap_itemText_ne _ _ attrs' attrs)
    · rfl
  subst hdir
  have hlength : (recordKeywords (dir.fields attrs)).length =
      (recordKeywords (dir.fields attrs')).length := by
    cases dir <;> rfl
  obtain ⟨hstart, hkwargs⟩ := flatMap_itemText_inj hlength (isRecordKeyword_of_mem dir attrs)
    (isRecordKeyword_of_mem dir attrs') htext
  obtain ⟨rfl, rfl⟩ := callStart_inj hx hx' hstart
  exact ⟨rfl, rfl, rfl, Direction.record_eq_of_recordKeywords hkwargs⟩

/-- Two records that would be printed in the same way if quotes were not escaped in layouts. -/
theorem printCall_convolution_inj_quotes :
    let call (dataLayout kernelLayout : String) : Call :=
      Direction.forward.call (.var "x" none) (.var "w" none)
        { (default : Conv2dTransposeAttrs) with
          conv := { (default : Conv2dAttrs) with dataLayout, kernelLayout } }
    ',' ∉ "x".toList ∧
      ({} : Printer).printCall (call "a\", kernel_layout=\"b" "c") ≠
        ({} : Printer).printCall (call "a" "b\", kernel_layout=\"c") := by
  intro call
  refine ⟨by decide, fun h => ?_⟩
  have hrecord := ((printCall_convolution_inj {} .forward .forward (by decide) (by decide) "w" "w"
    none none none none _ _).2 h).2.2.2
  have hlayout : "a\", kernel_layout=\"b" = "a" :=
    congrArg Conv2dAttrs.dataLayout (Attrs.conv2d.inj hrecord)
  exact absurd hlayout (by decide)

end Printer

end TensorIR
