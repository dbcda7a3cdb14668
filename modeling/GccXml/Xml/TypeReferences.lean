import GccXml.Xml.References
import GccXml.Xml.ExactlyOnce

namespace GccXml

/-! # `Xml.TypeReferences` — references to types

A reference to a type is written by `xml_print_type_idref` as an id with a suffix. The id is that of a typedef or of
the main variant; the element for the suffix is written later by `xml_output_cv_qualified_type`, which computes the
same id again. The two agree on the text when exactly one variant with that id and suffix is printed.

The types that a node refers to are listed by a table, `referencedTypes`, which follows the element functions without
their texts; the table is right because the references in the elements of a node are those to its types, in order. So
the references of a document are known from the nodes that are printed, and the ids of a document as well.

A reference resolves if its text is the id of one element and that element is of a variant with the right qualifiers.
What can go wrong is that the type is not printed: `xml_dump_tree_node` prints a `CvQualifiedType` for some tree codes
only, while references with a suffix are written for all. Without late requests this is the only thing, and the unit at
the end has a type of such a code. -/

open DumpInfo

section
variable {Node ι φ : Type}

/-! ## Type references -/

/-- The attributes that `xml_print_type_idref` writes into. -/
def typeReferenceNames : List String := ["type", "returns", "throw"]

/-- The type, the index and the suffix of a piece that refers to a type. -/
def Piece.typeId? : Piece Node ι φ → Option (Node × ι × Quals)
  | .typeId t i suffix => some (t, i, suffix)
  | _ => none

/-- The type references in the attributes of an element. -/
def typeIds (attrs : List (String × List (Piece Node ι φ))) : List (Node × ι × Quals) :=
  (attrRefs attrs).filterMap fun r => if r.1 ∈ typeReferenceNames then r.2.typeId? else none

/-- The type references of a list of elements. -/
def typeReferences (es : List (Element Node ι φ)) : List (Node × ι × Quals) := es.flatMap fun e => typeIds e.attrs

end

section
variable {Node : Type} [DecidableEq Node] (tu : TranslationUnit Node)

/-- The reference to the type `t`, with the node that it names. -/
def typeRefOf (t : Node) : Node × Option Node × Quals := (t, idrefBase tu t, idrefSuffix tu t)

/-- The type references that a block of attributes writes. -/
def typeRefsOf (p : Print Node Unit) : List (Node × Option Node × Quals) := typeIds (attrsOf p)

omit [DecidableEq Node] in
theorem typeRefsOf_eq (p : Print Node Unit) :
    typeRefsOf p = (refsOf p).filterMap fun r => if r.1 ∈ typeReferenceNames then r.2.typeId? else none := rfl

/-! ## The types that a node refers to -/

/-- The types that the type `t` refers to when it is its own main variant. -/
def mainVariantTypes (t : Node) : List Node :=
  match tu.treeCode t with
  | .arrayType | .pointerType | .referenceType | .offsetType => [tu.treeType t]
  | .functionType => tu.treeType t :: printedArgumentTypes tu [] (tu.tree t).typeArgTypes
  | .methodType => tu.treeType t :: printedArgumentTypes tu [] ((tu.tree t).typeArgTypes.drop 1)
  | _ => []

/-- **The types that printing `n` refers to.** -/
def referencedTypes (n : Node) : List Node :=
  match tu.treeCode n with
  | .typeDecl => [tu.typedefTarget n]
  | .functionDecl => functionTypes tu n
  | .varDecl => [tu.treeType n]
  | .fieldDecl => [(tu.tree n).declBitFieldType.getD (tu.treeType n)]
  | .unionType | .qualUnionType | .recordType | .arrayType | .pointerType | .referenceType | .functionType
  | .methodType | .offsetType | .enumeralType | .langType | .integerType | .booleanType | .realType
  | .voidType | .complexType =>
      if n = tu.typeMainVariant n then mainVariantTypes tu n else []
  | _ => []

/-! ## The table is right -/

theorem typeRefs_namespace (n : Node) (c : Bool) : typeRefsOf (namespaceAttributes tu n c) = [] := by
  rw [typeRefsOf_eq]
  cases c <;> simp [namespaceAttributes, List.filterMap_map, typeReferenceNames, Piece.typeId?]

theorem typeRefs_namespaceAlias (n : Node) : typeRefsOf (namespaceAliasAttributes tu n) = [] := by
  rw [typeRefsOf_eq]
  simp [namespaceAliasAttributes, List.filterMap_map, typeReferenceNames, Piece.typeId?]

theorem typeRefs_typedef (n : Node) (c : Bool) :
    typeRefsOf (typedefAttributes tu n c) = [typeRefOf tu (tu.typedefTarget n)] := by
  rw [typeRefsOf_eq]
  simp [typedefAttributes, List.filterMap_map, typeReferenceNames, Piece.typeId?, typeRef, typeRefOf]

theorem typeRefs_varDecl (n : Node) (c : Bool) :
    typeRefsOf (varDeclAttributes tu n c) = [typeRefOf tu (tu.treeType n)] := by
  rw [typeRefsOf_eq]
  simp [varDeclAttributes, List.filterMap_map, typeReferenceNames, Piece.typeId?, typeRef, typeRefOf]

theorem typeRefs_fieldDecl (n : Node) (c : Bool) :
    typeRefsOf (fieldDeclAttributes tu n c) = [typeRefOf tu ((tu.tree n).declBitFieldType.getD (tu.treeType n))] := by
  rw [typeRefsOf_eq]
  simp [fieldDeclAttributes, List.filterMap_map, typeReferenceNames, Piece.typeId?, typeRef, typeRefOf]

theorem typeRefs_function (n : Node) (c : Bool) :
    typeRefsOf (functionAttributes tu n c) =
      ((if (functionShape tu n).doReturns then [tu.treeType (tu.treeType n)] else []) ++
        (tu.tree (tu.treeType n)).typeRaisesExceptions.getD []).map (typeRefOf tu) := by
  rw [typeRefsOf_eq]
  cases hreturns : (functionShape tu n).doReturns <;> cases hvirtual : (functionShape tu n).doVirtual <;>
    cases hv : (tu.tree n).declVirtualP <;>
    simp [functionAttributes, List.filterMap_map, typeReferenceNames, Piece.typeId?, typeRef, typeRefOf, hreturns,
      hvirtual, hv]

theorem typeRefs_record (n : Node) (c : Bool) : typeRefsOf (recordAttributes tu n c) = [] := by
  rw [typeRefsOf_eq]
  cases hmembers : c && (tu.tree n).completeTypeP <;> cases hbases : printedBases tu n c <;>
    simp [recordAttributes, List.filterMap_map, typeReferenceNames, Piece.typeId?, hmembers, hbases]

omit [DecidableEq Node] in
theorem typeRefs_base (base : BaseBinfo Node) (i : Option Node) : typeRefsOf (baseAttributes base i) = [] := by
  rw [typeRefsOf_eq]
  simp [baseAttributes, typeReferenceNames, Piece.typeId?]

omit [DecidableEq Node] in
theorem typeRefs_fundamentalType (n : Node) : typeRefsOf (fundamentalTypeAttributes tu n) = [] := by
  rw [typeRefsOf_eq]
  cases hname : (tu.tree n).typeName <;> simp [fundamentalTypeAttributes, hname, typeReferenceNames]

theorem typeRefs_functionType (n : Node) (c : Bool) :
    typeRefsOf (functionTypeAttributes tu n c) = [typeRefOf tu (tu.treeType n)] := by
  rw [typeRefsOf_eq]
  simp [functionTypeAttributes, typeReferenceNames, Piece.typeId?, typeRef, typeRefOf]

theorem typeRefs_methodType (n : Node) (c : Bool) :
    typeRefsOf (methodTypeAttributes tu n c) = [typeRefOf tu (tu.treeType n)] := by
  rw [typeRefsOf_eq]
  simp [methodTypeAttributes, typeReferenceNames, Piece.typeId?, typeRef, typeRefOf]

theorem typeRefs_indirectType (n : Node) :
    typeRefsOf (indirectTypeAttributes tu n) = [typeRefOf tu (tu.treeType n)] := by
  rw [typeRefsOf_eq]
  simp [indirectTypeAttributes, typeReferenceNames, Piece.typeId?, typeRef, typeRefOf]

theorem typeRefs_offsetType (n : Node) (c : Bool) :
    typeRefsOf (offsetTypeAttributes tu n c) = [typeRefOf tu (tu.treeType n)] := by
  rw [typeRefsOf_eq]
  simp [offsetTypeAttributes, typeReferenceNames, Piece.typeId?, typeRef, typeRefOf]

theorem typeRefs_arrayType (n : Node) (c : Bool) :
    typeRefsOf (arrayTypeAttributes tu n c) = [typeRefOf tu (tu.treeType n)] := by
  rw [typeRefsOf_eq]
  simp [arrayTypeAttributes, typeReferenceNames, Piece.typeId?, typeRef, typeRefOf]

theorem typeRefs_enumeralType (n : Node) : typeRefsOf (enumeralTypeAttributes tu n) = [] := by
  rw [typeRefsOf_eq]
  simp [enumeralTypeAttributes, List.filterMap_map, typeReferenceNames, Piece.typeId?]

omit [DecidableEq Node] in
theorem typeRefs_unimplemented (n : Node) (dn : Option Node) (function : Option String) :
    typeRefsOf (unimplementedAttributes tu n dn function) = [] := by
  rw [typeRefsOf_eq]
  cases dn <;> simp [unimplementedAttributes, typeReferenceNames]

omit [DecidableEq Node] in
theorem typeRefs_enumValue (tv : Option String × Node) : typeIds (enumValueChild tu tv).element.attrs = [] := by
  unfold enumValueChild
  split
  · show typeRefsOf (enumValueAttributes tu tv.1 tv.2) = []
    rw [typeRefsOf_eq]
    simp [enumValueAttributes]
  · exact typeRefs_unimplemented tu tv.2 none _

theorem typeRefs_argument (c : Bool) (arg : Option (ParmDecl Node) × ArgType Node) :
    typeRefsOf (argumentAttributes tu arg.1 arg.2 c) = [typeRefOf tu (argumentType tu arg.1 arg.2)] := by
  rw [typeRefsOf_eq]
  cases arg.1 <;> simp [argumentAttributes, typeReferenceNames, Piece.typeId?, typeRef, typeRefOf]

theorem typeRefs_cvQualifiedType (n : Node) : typeIds (cvElement tu n).attrs = [] := by
  show typeRefsOf (cvQualifiedTypeAttributes n _ _) = []
  rw [typeRefsOf_eq]
  simp [cvQualifiedTypeAttributes, refsOf_writeAttr, typeReferenceNames, Piece.typeId?]

omit [DecidableEq Node] in
theorem typeReferences_some (e : SymEntry Node) :
    typeReferences ((some e).toList.flatMap Entry.elements) =
      typeIds e.element.attrs ++ (e.children.getD []).flatMap fun child => typeIds child.element.attrs := by
  simp [typeReferences, Entry.elements, List.flatMap_map]

omit [DecidableEq Node] in
/-- An entry has the type references of its attributes and those of its children. -/
theorem typeReferences_of_attrs {tag : String} {p : Print Node Unit} {children : Option (List (SymChild Node))}
    {refs refs' : List (Node × Option Node × Quals)} (hattrs : typeRefsOf p = refs)
    (hchildren : ((children.getD []).flatMap fun child => typeIds child.element.attrs) = refs') :
    typeReferences ((some (⟨⟨tag, attrsOf p⟩, children⟩ : SymEntry Node)).toList.flatMap Entry.elements) =
      refs ++ refs' := by
  rw [typeReferences_some, hchildren]
  exact congrArg (· ++ refs') hattrs

theorem typeRefs_argumentChildren (c : Bool) (args : List (Option (ParmDecl Node) × ArgType Node)) (endVoid : Bool) :
    ((argumentChildren tu c args endVoid).flatMap fun child => typeIds child.element.attrs) =
      args.map fun a => typeRefOf tu (argumentType tu a.1 a.2) := by
  have harg : ∀ arg : Option (ParmDecl Node) × ArgType Node,
      typeIds (argumentChild tu c arg).element.attrs = [typeRefOf tu (argumentType tu arg.1 arg.2)] :=
    fun arg => typeRefs_argument tu c arg
  have hellipsis : ((ellipsisChild endVoid : List (SymChild Node)).flatMap fun child => typeIds child.element.attrs) =
      [] := by
    cases endVoid <;> rfl
  unfold argumentChildren
  rw [List.flatMap_append, hellipsis, List.append_nil, List.flatMap_map]
  simp only [harg]
  exact List.map_eq_flatMap.symm

theorem typeRefs_functionChildren (n : Node) (c : Bool) :
    (((functionChildren tu n c).getD []).flatMap fun child => typeIds child.element.attrs) =
      (functionArguments tu n).map fun a => typeRefOf tu (argumentType tu a.1 a.2) := by
  unfold functionChildren functionArguments
  dsimp only
  split
  · rename_i h
    rw [List.isEmpty_iff.mp (Bool.and_eq_true_iff.mp h).1]
    simp [printedArguments]
  · exact typeRefs_argumentChildren tu c _ _

theorem typeRefs_recordChildren (n : Node) (c : Bool) :
    (((recordChildren tu n c).getD []).flatMap fun child => typeIds child.element.attrs) = [] := by
  unfold recordChildren
  dsimp only
  split
  · rfl
  · refine List.flatMap_eq_nil_iff.mpr fun child hchild => ?_
    obtain ⟨base, -, rfl⟩ := List.mem_map.mp hchild
    exact typeRefs_base base _

omit [DecidableEq Node] in
theorem typeRefs_enumValues (tvs : List (Option String × Node)) :
    ((tvs.map (enumValueChild tu)).flatMap fun child => typeIds child.element.attrs) = [] := by
  refine List.flatMap_eq_nil_iff.mpr fun child hchild => ?_
  obtain ⟨tv, -, rfl⟩ := List.mem_map.mp hchild
  exact typeRefs_enumValue tu tv

/-- The table of a main variant is right. -/
theorem typeReferences_mainVariant (n : Node) (c : Bool) :
    typeReferences ((mainVariantEntry tu n c).toList.flatMap Entry.elements) =
      (mainVariantTypes tu n).map (typeRefOf tu) := by
  unfold mainVariantEntry mainVariantTypes
  split <;> rename_i hcode <;> simp only [hcode]
  case h_1 | h_2 | h_3 => exact typeReferences_of_attrs (typeRefs_record tu n c) (typeRefs_recordChildren tu n c)
  case h_4 => exact typeReferences_of_attrs (typeRefs_arrayType tu n c) rfl
  case h_5 | h_6 => exact typeReferences_of_attrs (typeRefs_indirectType tu n) rfl
  case h_7 =>
    refine (@typeReferences_of_attrs _ _ _ (some _) _ _ (typeRefs_functionType tu n c)
      (typeRefs_argumentChildren tu c _ _)).trans ?_
    simp [printedArgumentTypes]
  case h_8 =>
    refine (@typeReferences_of_attrs _ _ _ (some _) _ _ (typeRefs_methodType tu n c)
      (typeRefs_argumentChildren tu c _ _)).trans ?_
    simp [printedArgumentTypes]
  case h_9 => exact typeReferences_of_attrs (typeRefs_offsetType tu n c) rfl
  case h_10 => exact typeReferences_of_attrs (typeRefs_enumeralType tu n) (typeRefs_enumValues tu _)
  -- the fundamental types
  case h_11 | h_12 | h_13 | h_14 | h_15 | h_16 => exact typeReferences_of_attrs (typeRefs_fundamentalType tu n) rfl
  case h_17 => rfl

/-- A variant writes no type reference of its own. -/
theorem typeReferences_variant (n : Node) : typeReferences ((variantEntry tu n).toList.flatMap Entry.elements) = [] := by
  unfold variantEntry
  split
  · exact typeReferences_of_attrs (typeRefs_cvQualifiedType tu n) rfl
  · rfl

/-- **The type references of a node** are those to its referenced types, in this order. -/
theorem typeReferences_nodeElements (n : Node) (c : Bool) :
    typeReferences (nodeElements tu (n, c)) = (referencedTypes tu n).map (typeRefOf tu) := by
  unfold nodeElements nodeEntry referencedTypes
  dsimp only
  split <;> rename_i hcode <;> simp only [hcode]
  case h_1 =>
    split
    · exact typeReferences_of_attrs (typeRefs_namespace tu n c) rfl
    · exact typeReferences_of_attrs (typeRefs_namespaceAlias tu n) rfl
  case h_2 => exact typeReferences_of_attrs (typeRefs_typedef tu n c) rfl
  case h_3 =>
    refine (typeReferences_of_attrs (typeRefs_function tu n c) (typeRefs_functionChildren tu n c)).trans ?_
    simp [functionTypes]
  case h_4 => exact typeReferences_of_attrs (typeRefs_varDecl tu n c) rfl
  case h_5 => exact typeReferences_of_attrs (typeRefs_fieldDecl tu n c) rfl
  case h_22 => exact typeReferences_of_attrs (typeRefs_unimplemented tu n (some n) none) rfl
  all_goals
    split
    · exact typeReferences_mainVariant tu n c
    · exact typeReferences_variant tu n

end

/-! ## The ids of the document -/

section
variable {Node : Type} [DecidableEq Node] {tu : TranslationUnit Node} {starts : List Node}

variable (tu) in
/-- The node and the suffix in the id of the element of `n`: `n` itself, or the reference that the variant `n` stands
    for, if this has a suffix. -/
def elementId (n : Node) : Option (Option Node × Quals) :=
  if PrintsOwnId tu n then some (some n, Quals.none)
  else if idrefSuffix tu n ≠ Quals.none then some (idrefBase tu n, idrefSuffix tu n) else none

variable (tu) in
/-- The text of the id of the element of `n`. -/
def DumpInfo.idTextOf (s : DumpInfo Node) (n : Node) : Option String :=
  (elementId tu n).map fun x => refText (s.indexOf x.1) x.2

/-- The id without a suffix is that of a node printed under its own id. -/
theorem elementId_none_iff {n : Node} {i : Option Node} :
    elementId tu n = some (i, Quals.none) ↔ PrintsOwnId tu n ∧ i = some n := by
  unfold elementId
  by_cases hown : PrintsOwnId tu n
  · simp [hown, eq_comm]
  · by_cases hsuffix : idrefSuffix tu n = Quals.none <;> simp [hown, hsuffix]

/-- An id with a suffix is that of a variant. -/
theorem elementId_suffix_iff {n : Node} {i : Option Node} {q : Quals} (hq : q ≠ Quals.none) :
    elementId tu n = some (i, q) ↔ ¬ PrintsOwnId tu n ∧ idrefBase tu n = i ∧ idrefSuffix tu n = q := by
  unfold elementId
  by_cases hown : PrintsOwnId tu n
  · simp [hown, hq.symm]
  · by_cases hsuffix : idrefSuffix tu n = Quals.none
    · simp [hown, hsuffix, hq.symm]
    · simp [hown, hsuffix]

theorem idTexts_nodeElements (s : DumpInfo Node) (d : Node × Bool) :
    ((nodeElements tu d).map s.fillElement).filterMap Element.idText = (s.idTextOf tu d.1).toList := by
  unfold idTextOf elementId
  by_cases hown : PrintsOwnId tu d.1
  · obtain ⟨e, rest, hels, hid, hrest⟩ := nodeElements_own d.2 hown
    have hnone : (rest.map s.fillElement).filterMap Element.idText = [] := by
      refine List.filterMap_eq_nil_iff.mpr fun e' he' => ?_
      obtain ⟨e'', he'', rfl⟩ := List.mem_map.mp he'
      rw [idText_fillElement, hrest e'' he'']
      rfl
    have hfirst : (s.fillElement e).idText = some (refText (s.index d.1) Quals.none) := by
      rw [idText_fillElement, hid]
      simp [valueText, Piece.fill, Piece.text, indexOf]
    rw [hels, List.map_cons, List.filterMap_cons, hfirst, hnone, if_pos hown]
    rfl
  · rw [nodeElements_variant d.2 hown, if_neg hown]
    split
    · have hid : (cvElement tu d.1).attr? "id" = some [.typeId d.1 (idrefBase tu d.1) (idrefSuffix tu d.1)] :=
        Element.attr?_of_head rfl
      rw [List.map_singleton, List.filterMap_cons, idText_fillElement, hid]
      simp [valueText, Piece.fill, Piece.text]
    · rfl

/-- **The ids of the document**, in order: those of the printed nodes and those of the files. -/
theorem PhasesEnd.idTexts {s₁ s₂ : DumpInfo Node} (h : PhasesEnd tu starts s₁ s₂) :
    (GccXml.elements (finishDump s₂).file).filterMap Element.idText =
      (s₂.dumped.map (·.1)).filterMap (s₂.idTextOf tu) ++ s₂.fileQueue.map fun f => fileText f.2 := by
  have hroot : (rootElement tu).idText = none := by
    unfold Element.idText Element.attr? rootElement
    cases tu.gccxmlVersionFull <;> rfl
  have hfile : ∀ f : String × Nat, (fileElement f : Element Node Nat Nat).idText = some (fileText f.2) := by
    intro f
    have hid : (fileElement f : Element Node Nat Nat).attr? "id" = some [.file f.2] := Element.attr?_of_head rfl
    rw [Element.idText, hid]
    simp [valueText, Piece.text]
  have hnodes : (s₂.dumped.flatMap fun d => (nodeElements tu d).map s₂.fillElement).filterMap Element.idText =
      (s₂.dumped.map (·.1)).filterMap (s₂.idTextOf tu) := by
    rw [List.filterMap_flatMap, List.filterMap_map, List.filterMap_eq_flatMap_toList]
    exact congrArg List.flatten (List.map_congr_left fun d _ => idTexts_nodeElements s₂ d)
  rw [h.elements, List.cons_append, List.filterMap_cons, hroot, List.filterMap_append, hnodes, List.filterMap_map]
  simp [hfile]

/-- How many elements have the id of a reference. -/
theorem PhasesEnd.count_idTexts {s₁ s₂ : DumpInfo Node} (h : PhasesEnd tu starts s₁ s₂) (i : Nat) (q : Quals) :
    ((GccXml.elements (finishDump s₂).file).filterMap Element.idText).count (refText i q) =
      (s₂.dumped.map (·.1)).countP fun n => s₂.idTextOf tu n = some (refText i q) := by
  have hfiles : (s₂.fileQueue.map fun f => fileText f.2).count (refText i q) = 0 := by
    refine List.count_eq_zero.mpr fun hmem => ?_
    obtain ⟨f, -, hf⟩ := List.mem_map.mp hmem
    exact refText_ne_fileText _ _ _ hf.symm
  rw [h.idTexts, List.count_append, hfiles, List.count_filterMap, Nat.add_zero]
  exact List.countP_congr fun n _ => by simp

/-- The element of `n` has the id of a reference if and only if it is what the reference names. -/
theorem idTextOf_eq_iff {s : DumpInfo Node} (hc : s.Coherent) {b n : Node} (hb : s.index b ≠ 0) (q : Quals) :
    s.idTextOf tu n = some (refText (s.index b) q) ↔ elementId tu n = some (some b, q) := by
  unfold idTextOf
  rw [Option.map_eq_some_iff]
  constructor
  · rintro ⟨⟨i, q'⟩, hid, ht⟩
    obtain ⟨hi, rfl⟩ := refText_inj.mp ht
    cases i with
    | none => exact absurd hi.symm hb
    | some m =>
        have hm : s.index m = s.index b := hi
        rw [hid, hc.index_inj m b (hm ▸ hb) hm]
  · exact fun hid => ⟨_, hid, rfl⟩

theorem countP_eq_one_of_nodup {l : List Node} {p : Node → Bool} (hnd : l.Nodup) {a : Node} (ha : a ∈ l) (hpa : p a)
    (hunique : ∀ b ∈ l, p b → b = a) : l.countP p = 1 := by
  have hcount : l.countP p = l.count a :=
    List.countP_congr fun b hb => ⟨fun hpb => beq_iff_eq.mpr (hunique b hb hpb), fun he => beq_iff_eq.mp he ▸ hpa⟩
  rw [hcount]
  exact List.count_eq_one_of_mem hnd ha

omit [DecidableEq Node] in
theorem eq_of_countP_eq_one {l : List Node} {p : Node → Bool} (h : l.countP p = 1) {a b : Node} (ha : a ∈ l)
    (hb : b ∈ l) (hpa : p a) (hpb : p b) : a = b := by
  rw [List.countP_eq_length_filter, List.length_eq_one_iff] at h
  obtain ⟨x, hx⟩ := h
  have hax : a ∈ l.filter p := List.mem_filter.mpr ⟨ha, hpa⟩
  have hbx : b ∈ l.filter p := List.mem_filter.mpr ⟨hb, hpb⟩
  rw [hx, List.mem_singleton] at hax hbx
  exact hax.trans hbx.symm

/-! ## References that resolve -/

/-- The qualifiers of the typedef that a reference to `t` names, if it names one. -/
def namedQuals (tu : TranslationUnit Node) (t : Node) : Quals :=
  match (tu.tree t).typeName with
  | some name => if (answer tu name).isSome then (tu.tree (tu.treeType name)).cpTypeQuals else Quals.none
  | none => Quals.none

/-- The element `e` stands for a type with the qualifiers `q`, and its `type` is the id of one of the elements. -/
structure IsVariantElement (es : List (Element Node Nat Nat)) (q : Quals) (e : Element Node Nat Nat) : Prop where
  tag : e.tag = "CvQualifiedType"
  isConst : e.attr? "const" = if q.isConst then some [.str "1"] else none
  isVolatile : e.attr? "volatile" = if q.isVolatile then some [.str "1"] else none
  isRestrict : e.attr? "restrict" = if q.isRestrict then some [.str "1"] else none
  type : ∃ value, e.attr? "type" = some value ∧ ∃ e' ∈ es, e'.idText = some (valueText value)

/-- **The reference resolves**: the text for the index `i` and the suffix `q`, which stands for the type `t`, is the
    id of exactly one element; with a suffix this is the element of a variant with these qualifiers; and the suffix
    and the qualifiers of the typedef that is named are those of `t`. -/
structure TypeResolves (tu : TranslationUnit Node) (es : List (Element Node Nat Nat)) (t : Node) (i : Nat)
    (q : Quals) : Prop where
  once : (es.filterMap Element.idText).count (refText i q) = 1
  variant : q ≠ Quals.none → ∀ e ∈ es, e.idText = some (refText i q) → IsVariantElement es q e
  quals : q.union (namedQuals tu t) = (tu.tree t).cpTypeQuals

/-- Every type reference of the document resolves. -/
def TypeReferencesResolve (tu : TranslationUnit Node) (s : DumpInfo Node) : Prop :=
  ∀ x ∈ typeReferences (elements s.file), TypeResolves tu (elements s.file) x.1 x.2.1 x.2.2

/-- A reference to `t` names a node that `xml_add_node` accepts and that is printed under its own id, and with a
    suffix there is exactly one node among those that are reached which is printed as a variant with this id. -/
def TypePrinted (tu : TranslationUnit Node) (starts : List Node) (t : Node) : Prop :=
  ∃ b, idrefBase tu t = some b ∧ PrintsOwnId tu b ∧
    (idrefSuffix tu t ≠ Quals.none → ∃! r, (∃ c, Reached tu starts r c) ∧ ¬ PrintsOwnId tu r ∧
      idrefBase tu r = some b ∧ idrefSuffix tu r = idrefSuffix tu t)

variable (tu starts) in
/-- Every type that a node of the run refers to is printed. -/
def TypesPrinted : Prop := ∀ n c, Reached tu starts n c → ∀ t ∈ referencedTypes tu n, TypePrinted tu starts t

/-- The qualifiers of a typedef's target are among those of the types with its name. -/
def TypedefQualsKept (tu : TranslationUnit Node) : Prop :=
  ∀ t name, (tu.tree t).typeName = some name → (tu.tree (tu.treeType name)).cpTypeQuals.Subset (tu.tree t).cpTypeQuals

/-- The suffix and the qualifiers of the typedef make up the qualifiers of the type. -/
theorem union_idrefSuffix (hkept : TypedefQualsKept tu) (t : Node) :
    (idrefSuffix tu t).union (namedQuals tu t) = (tu.tree t).cpTypeQuals := by
  have hnone : ∀ q : Quals, q.union Quals.none = q := fun q => by simp [Quals.union, Quals.none]
  unfold idrefSuffix namedQuals
  cases hname : (tu.tree t).typeName with
  | none => exact hnone _
  | some name =>
      dsimp only
      split
      · exact Quals.diff_union_of_subset (hkept t name hname)
      · exact hnone _

omit [DecidableEq Node] in
theorem typeIds_fillElement (s : DumpInfo Node) (e : SymElement Node) :
    typeIds (s.fillElement e).attrs = (typeIds e.attrs).map fun x => (x.1, s.indexOf x.2.1, x.2.2) := by
  have hid : ∀ x : SymPiece Node, (x.fill s.indexOf s.fileIndexOf).typeId? =
      x.typeId?.map fun x => (x.1, s.indexOf x.2.1, x.2.2) := by
    intro x
    cases x <;> rfl
  unfold typeIds
  rw [attrRefs_fillElement, List.filterMap_map, List.map_filterMap]
  refine List.filterMap_congr fun r _ => ?_
  dsimp only [Function.comp_apply]
  split
  · exact hid r.2
  · rfl

/-- **The type references of the document**: those of the printed nodes. -/
theorem PhasesEnd.mem_typeReferences {s₁ s₂ : DumpInfo Node} (h : PhasesEnd tu starts s₁ s₂)
    {x : Node × Nat × Quals} : x ∈ typeReferences (GccXml.elements (finishDump s₂).file) ↔
      ∃ d ∈ s₂.dumped, ∃ t ∈ referencedTypes tu d.1, (t, s₂.indexOf (idrefBase tu t), idrefSuffix tu t) = x := by
  have hroot : typeIds (rootElement tu).attrs = [] := by
    unfold rootElement
    cases tu.gccxmlVersionFull <;> rfl
  have hnode : ∀ d : Node × Bool, typeReferences ((nodeElements tu d).map s₂.fillElement) =
      (referencedTypes tu d.1).map fun t => (t, s₂.indexOf (idrefBase tu t), idrefSuffix tu t) := by
    intro d
    have hmap : typeReferences ((nodeElements tu d).map s₂.fillElement) =
        (typeReferences (nodeElements tu d)).map fun x => (x.1, s₂.indexOf x.2.1, x.2.2) := by
      unfold typeReferences
      rw [List.flatMap_map, List.map_flatMap]
      exact congrArg List.flatten (List.map_congr_left fun e _ => typeIds_fillElement s₂ e)
    rw [hmap, typeReferences_nodeElements, List.map_map]
    rfl
  have hfiles : typeReferences (s₂.fileQueue.map (@fileElement Node)) = [] := by
    refine List.flatMap_eq_nil_iff.mpr fun e he => ?_
    obtain ⟨f, -, rfl⟩ := List.mem_map.mp he
    rfl
  -- the references of the document are those of its nodes, since root and files have none
  have hall : typeReferences (GccXml.elements (finishDump s₂).file) =
      s₂.dumped.flatMap fun d =>
        (referencedTypes tu d.1).map fun t => (t, s₂.indexOf (idrefBase tu t), idrefSuffix tu t) := by
    have hparts : typeReferences (GccXml.elements (finishDump s₂).file) =
        typeIds (rootElement tu).attrs ++
          (s₂.dumped.flatMap fun d => typeReferences ((nodeElements tu d).map s₂.fillElement)) ++
          typeReferences (s₂.fileQueue.map (@fileElement Node)) := by
      rw [h.elements]
      simp [typeReferences, List.flatMap_assoc]
    rw [hparts, hroot, hfiles, List.nil_append, List.append_nil]
    exact congrArg List.flatten (List.map_congr_left fun d _ => hnode d)
  rw [hall]
  simp only [List.mem_flatMap, List.mem_map]

/-- The node that a type reference names has an index. -/
theorem PhasesEnd.index_of_idrefBase {s₁ s₂ : DumpInfo Node} (h : PhasesEnd tu starts s₁ s₂) {d : Node × Bool}
    (hd : d ∈ s₂.dumped) {t b : Node} (ht : t ∈ referencedTypes tu d.1) (hb : idrefBase tu t = some b) :
    s₂.index b ≠ 0 := by
  have hmem : typeRefOf tu t ∈ typeReferences (nodeElements tu d) := by
    rw [typeReferences_nodeElements]
    exact List.mem_map.mpr ⟨t, ht, rfl⟩
  obtain ⟨e, he, hmem⟩ := List.mem_flatMap.mp hmem
  obtain ⟨r, hr, hid⟩ := List.mem_filterMap.mp hmem
  obtain ⟨a, ha, hr⟩ := List.mem_flatMap.mp hr
  obtain ⟨x, hx, rfl⟩ := List.mem_map.mp hr
  split at hid
  · refine (h.known hd he ha (List.mem_filter.mp hx).1).1 b ?_
    cases x <;> simp_all [Piece.typeId?, Piece.node?, typeRefOf]
  · cases hid

/-- The element of a variant whose base is printed under its own id. -/
theorem PhasesEnd.isVariantElement {s₁ s₂ : DumpInfo Node} (h : PhasesEnd tu starts s₁ s₂) {n b : Node}
    (hbase : idrefBase tu n = some b) (hb : s₂.index b ≠ 0) (hown : PrintsOwnId tu b) :
    IsVariantElement (GccXml.elements (finishDump s₂).file) (idrefSuffix tu n) (s₂.fillElement (cvElement tu n)) := by
  obtain ⟨e', he', hid⟩ := h.exists_own (h.printed hb) hown
  have htype : ∃ value, (s₂.fillElement (cvElement tu n)).attr? "type" = some value ∧
      ∃ e' ∈ GccXml.elements (finishDump s₂).file, e'.idText = some (valueText value) := by
    refine ⟨[.id (s₂.index b)], ?_, e', he', ?_⟩
    · unfold cvElement
      rw [hbase]
      rfl
    · rw [hid]
      simp [valueText, Piece.text]
  have hflags : ∀ q : Quals, ∀ name ∈ ["const", "volatile", "restrict"],
      (s₂.fillElement ⟨"CvQualifiedType", attrsOf (cvQualifiedTypeAttributes n (idrefBase tu n) q)⟩).attr? name =
        if (name = "const" ∧ q.isConst) ∨ (name = "volatile" ∧ q.isVolatile) ∨ (name = "restrict" ∧ q.isRestrict) then
          some [.str "1"] else none := by
    rintro ⟨c, v, r⟩ name hname
    simp only [List.mem_cons, List.not_mem_nil, or_false] at hname
    rcases hname with rfl | rfl | rfl <;> cases c <;> cases v <;> cases r <;> rfl
  have hconst := hflags (idrefSuffix tu n) "const" (by simp)
  have hvolatile := hflags (idrefSuffix tu n) "volatile" (by simp)
  have hrestrict := hflags (idrefSuffix tu n) "restrict" (by simp)
  refine ⟨rfl, hconst.trans ?_, hvolatile.trans ?_, hrestrict.trans ?_, htype⟩ <;> simp

/-- A text that is an id belongs to a printed node. -/
theorem PhasesEnd.exists_idTextOf {s₁ s₂ : DumpInfo Node} (h : PhasesEnd tu starts s₁ s₂) {i : Nat} {q : Quals}
    (hmem : refText i q ∈ (GccXml.elements (finishDump s₂).file).filterMap Element.idText) :
    ∃ n ∈ s₂.dumped.map (·.1), s₂.idTextOf tu n = some (refText i q) := by
  rw [h.idTexts, List.mem_append] at hmem
  rcases hmem with hmem | hmem
  · exact List.mem_filterMap.mp hmem
  · obtain ⟨f, -, hf⟩ := List.mem_map.mp hmem
    exact absurd hf.symm (refText_ne_fileText _ _ _)

/-- An id without a suffix that belongs to a printed node: the index is that of a node printed under its own id. -/
theorem PhasesEnd.own_of_idText {s₁ s₂ : DumpInfo Node} (h : PhasesEnd tu starts s₁ s₂) {i : Option Node}
    (hmem : refText (s₂.indexOf i) Quals.none ∈
      (GccXml.elements (finishDump s₂).file).filterMap Element.idText) :
    ∃ b, i = some b ∧ s₂.index b ≠ 0 ∧ PrintsOwnId tu b := by
  obtain ⟨n, hn, ht⟩ := h.exists_idTextOf hmem
  have hn0 : s₂.index n ≠ 0 := (h.index_iff n).mpr (h.mem_dumped_iff.mp hn)
  obtain ⟨⟨j, q⟩, hid, ht⟩ := Option.map_eq_some_iff.mp ht
  obtain ⟨hindex, rfl⟩ := refText_inj.mp ht
  obtain ⟨hown, rfl⟩ := elementId_none_iff.mp hid
  cases i with
  | none => exact absurd hindex hn0
  | some b =>
      have hb : n = b := h.running.1.coherent.index_inj n b hn0 hindex
      subst hb
      exact ⟨n, rfl, hn0, hown⟩

/-- An element whose id has a suffix is that of a variant. -/
theorem PhasesEnd.variant_of_idText {s₁ s₂ : DumpInfo Node} (h : PhasesEnd tu starts s₁ s₂) {t : Node}
    (hsuffix : idrefSuffix tu t ≠ Quals.none) {e : Element Node Nat Nat} (he : e ∈ GccXml.elements (finishDump s₂).file)
    (hte : e.idText = some (refText (s₂.indexOf (idrefBase tu t)) (idrefSuffix tu t))) :
    ∃ m ∈ s₂.dumped.map (·.1), e = s₂.fillElement (cvElement tu m) ∧
      s₂.indexOf (idrefBase tu m) = s₂.indexOf (idrefBase tu t) ∧ ¬ PrintsOwnId tu m ∧
      idrefSuffix tu m = idrefSuffix tu t := by
  rcases h.idText_cases he hte with ⟨d, -, -, heq⟩ | ⟨d, hd, hown, -, he, heq⟩ | ⟨i, heq⟩
  · exact absurd (refText_inj.mp heq).2 hsuffix
  · obtain ⟨hindex, hq⟩ := refText_inj.mp heq
    exact ⟨d.1, List.mem_map.mpr ⟨d, hd, rfl⟩, he, hindex.symm, hown, hq.symm⟩
  · exact absurd heq (refText_ne_fileText _ _ _)

/-- A node with the index of `b` in its id has `b` itself there. -/
theorem idrefBase_of_indexOf {s : DumpInfo Node} (hc : s.Coherent) {m b : Node} (hb : s.index b ≠ 0)
    (h : s.indexOf (idrefBase tu m) = s.index b) : idrefBase tu m = some b := by
  cases hbase : idrefBase tu m with
  | none =>
      rw [hbase] at h
      exact absurd h.symm hb
  | some b' =>
      rw [hbase] at h
      have hb' : s.index b' ≠ 0 := fun h0 => hb (h.symm.trans h0)
      exact congrArg some (hc.index_inj b' b hb' h)

/-- When every reference resolves, every type that is referred to is printed. -/
theorem PhasesEnd.typesPrinted {s₁ s₂ : DumpInfo Node} (h : PhasesEnd tu starts s₁ s₂)
    (hres : TypeReferencesResolve tu (finishDump s₂)) : TypesPrinted tu starts := by
  intro n c hreached t ht
  have hres := hres _ (h.mem_typeReferences.mpr ⟨_, h.printed (h.reached hreached).1, t, ht, rfl⟩)
  dsimp only at hres
  have hmem : refText (s₂.indexOf (idrefBase tu t)) (idrefSuffix tu t) ∈
      (GccXml.elements (finishDump s₂).file).filterMap Element.idText :=
    List.count_pos_iff.mp (by rw [hres.once]; exact Nat.one_pos)
  by_cases hsuffix : idrefSuffix tu t = Quals.none
  · rw [hsuffix] at hmem
    obtain ⟨b, hb, -, hown⟩ := h.own_of_idText hmem
    exact ⟨b, hb, hown, fun hne => absurd hsuffix hne⟩
  · -- the element with the id is that of a variant, and its `type` is an id without a suffix
    obtain ⟨e, he, hte⟩ := List.mem_filterMap.mp hmem
    obtain ⟨value, hvalue, e', he', hte'⟩ := (hres.variant hsuffix e he hte).type
    obtain ⟨m, hm, rfl, hindex, hown, hq⟩ := h.variant_of_idText hsuffix he hte
    have htype : (s₂.fillElement (cvElement tu m)).attr? "type" = some [.id (s₂.indexOf (idrefBase tu m))] := rfl
    rw [htype] at hvalue
    cases Option.some.inj hvalue
    have hbase : refText (s₂.indexOf (idrefBase tu t)) Quals.none ∈
        (GccXml.elements (finishDump s₂).file).filterMap Element.idText := by
      refine List.mem_filterMap.mpr ⟨e', he', ?_⟩
      rw [hte', hindex]
      simp [valueText, Piece.text]
    obtain ⟨b, hb, hb0, hownb⟩ := h.own_of_idText hbase
    have hb' : s₂.indexOf (some b) = s₂.index b := rfl
    have hm' : idrefBase tu m = some b := by
      rw [hb] at hindex
      exact idrefBase_of_indexOf h.running.1.coherent hb0 hindex
    have hidText : ∀ r, (∃ c, Reached tu starts r c) ∧ ¬ PrintsOwnId tu r ∧ idrefBase tu r = some b ∧
        idrefSuffix tu r = idrefSuffix tu t → r ∈ s₂.dumped.map (·.1) ∧
          s₂.idTextOf tu r = some (refText (s₂.index b) (idrefSuffix tu t)) := by
      rintro r ⟨hr, hr'⟩
      refine ⟨h.mem_dumped_iff.mpr hr, ?_⟩
      rw [idTextOf_eq_iff h.running.1.coherent hb0, elementId_suffix_iff hsuffix]
      exact hr'
    -- an id is printed once, so two variants with this id are one
    have honce : (s₂.dumped.map (·.1)).countP
        (fun n => s₂.idTextOf tu n = some (refText (s₂.index b) (idrefSuffix tu t))) = 1 := by
      rw [← h.count_idTexts, ← hb', ← hb]
      exact hres.once
    refine ⟨b, hb, hownb, fun _ => ⟨m, ⟨h.mem_dumped_iff.mp hm, hown, hm', hq⟩, fun r hr => ?_⟩⟩
    obtain ⟨hrd, hrt⟩ := hidText r hr
    obtain ⟨hmd, hmt⟩ := hidText m ⟨h.mem_dumped_iff.mp hm, hown, hm', hq⟩
    exact eq_of_countP_eq_one honce hrd hmd (by simpa using hrt) (by simpa using hmt)

/-- When every type that is referred to is printed, and every node once, every reference resolves. -/
theorem PhasesEnd.typeReferencesResolve {s₁ s₂ : DumpInfo Node} (h : PhasesEnd tu starts s₁ s₂)
    (hkept : TypedefQualsKept tu) (hlate : NoLateRequest tu starts) (hprinted : TypesPrinted tu starts) :
    TypeReferencesResolve tu (finishDump s₂) := by
  have honce := exactlyOnce_of_noLateRequest h hlate
  have hnd : (s₂.dumped.map (·.1)).Nodup := by
    rw [List.nodup_iff_count_eq_one]
    exact fun n hn => honce.printed n ((h.index_iff n).mpr (h.mem_dumped_iff.mp hn))
  intro x hx
  obtain ⟨d, hd, t, ht, rfl⟩ := h.mem_typeReferences.mp hx
  obtain ⟨b, hb, hown, hunique⟩ := hprinted d.1 d.2 (h.running.1.onlyReached.dumped d hd) t ht
  have hb0 : s₂.index b ≠ 0 := h.index_of_idrefBase hd ht hb
  have hindex : s₂.indexOf (idrefBase tu t) = s₂.index b := by rw [hb]; rfl
  refine ⟨?_, fun hsuffix e he hte => ?_, union_idrefSuffix hkept t⟩
  · -- exactly one printed node has the id
    have hone : ∃ a ∈ s₂.dumped.map (·.1), elementId tu a = some (some b, idrefSuffix tu t) ∧
        ∀ a' ∈ s₂.dumped.map (·.1), elementId tu a' = some (some b, idrefSuffix tu t) → a' = a := by
      by_cases hsuffix : idrefSuffix tu t = Quals.none
      · rw [hsuffix]
        refine ⟨b, List.mem_map.mpr ⟨_, h.printed hb0, rfl⟩, elementId_none_iff.mpr ⟨hown, rfl⟩, fun a _ ha => ?_⟩
        exact (Option.some.inj (elementId_none_iff.mp ha).2).symm
      · obtain ⟨r, ⟨hr, hr'⟩, honly⟩ := hunique hsuffix
        refine ⟨r, h.mem_dumped_iff.mpr hr, (elementId_suffix_iff hsuffix).mpr hr', fun a ha ha' => ?_⟩
        exact honly a ⟨h.mem_dumped_iff.mp ha, (elementId_suffix_iff hsuffix).mp ha'⟩
    obtain ⟨a, ha, hida, honly⟩ := hone
    rw [hindex, h.count_idTexts]
    refine countP_eq_one_of_nodup hnd ha ?_ fun a' ha' hp => honly a' ha' ?_
    · exact decide_eq_true ((idTextOf_eq_iff h.running.1.coherent hb0 _).mpr hida)
    · exact (idTextOf_eq_iff h.running.1.coherent hb0 _).mp (of_decide_eq_true hp)
  · -- an element with the id is that of a variant of the same base
    dsimp only at hsuffix hte ⊢
    rw [hindex] at hte
    rcases h.idText_cases he hte with ⟨d', -, -, heq⟩ | ⟨d', hd', hown', -, rfl, heq⟩ | ⟨i, heq⟩
    · exact absurd (refText_inj.mp heq).2 hsuffix
    · obtain ⟨hindex', hq⟩ := refText_inj.mp heq
      have hid : s₂.idTextOf tu d'.1 = some (refText (s₂.index b) (idrefSuffix tu t)) := by
        rw [heq]
        unfold idTextOf
        rw [(elementId_suffix_iff (hq ▸ hsuffix)).mpr ⟨hown', rfl, rfl⟩]
        rfl
      rw [idTextOf_eq_iff h.running.1.coherent hb0, elementId_suffix_iff hsuffix] at hid
      rw [hq]
      exact h.isVariantElement hid.2.1 hb0 hown
    · exact absurd heq (refText_ne_fileText _ _ _)

/-- **When type references resolve.** Every run ends. If every type reference of its document resolves, then every
    type that a reached node refers to is printed; and when no late request is made, so that every node is printed
    once, this is enough for every reference to resolve. -/
theorem typeReferencesResolve_iff_typesPrinted (tu : TranslationUnit Node) (starts : List Node)
    (hkept : TypedefQualsKept tu) :
    ∃ s, (∀ fuel, 2 * tu.nodes.length ≤ fuel → doXmlOutput tu starts fuel = some s) ∧
      (TypeReferencesResolve tu s → TypesPrinted tu starts) ∧
      (NoLateRequest tu starts → (TypeReferencesResolve tu s ↔ TypesPrinted tu starts)) := by
  obtain ⟨s₁, s₂, h, -⟩ := exists_phasesEnd tu starts
  refine ⟨finishDump s₂, fun fuel hf => (h.doXmlOutput hf).2, h.typesPrinted, fun hlate => ?_⟩
  exact ⟨h.typesPrinted, h.typeReferencesResolve hkept hlate⟩

end

/-! ### A qualified vector type

`x` has the type `const v4si`, where `v4si` is a typedef of a vector type. `VECTOR_TYPE` is not among the codes for
which `xml_dump_tree_node` prints the `CvQualifiedType` that the reference needs. -/

/-- The nodes of the example, in the order of their addresses. -/
def qualifiedVector : TranslationUnit (Fin 7) where
  globalNamespace := 0
  tree
    | 0 => { code := .namespaceDecl, declName := some "::" }
    | 1 => { code := .varDecl, declName := some "x", declContext := some 0, treeType := some 2 }
    | 2 => { code := .vectorType, treeType := some 6, mainVariant := some 3, typeName := some 4
             cpTypeQuals := { isConst := true } }
    | 3 => { code := .vectorType, treeType := some 6 }
    | 4 => { code := .typeDecl, declName := some "v4si", declContext := some 0, treeType := some 5
             declOriginalType := some 3 }
    | 5 => { code := .vectorType, treeType := some 6, mainVariant := some 3, typeName := some 4 }
    | _ => { code := .integerType }
  nodes := List.finRange 7
  mem_nodes := List.mem_finRange
  address := Fin.val
  nodes_sorted := by decide
  rank
    | 4 => 1
    | _ => 0
  rank_lt := by decide

/-- The theorem at this graph. -/
theorem typeReferencesResolve_iff_qualifiedVector :
    TypedefQualsKept qualifiedVector ∧
      ∃ s, (∀ fuel, 2 * 7 ≤ fuel → doXmlOutput qualifiedVector [1] fuel = some s) ∧
        (TypeReferencesResolve qualifiedVector s → TypesPrinted qualifiedVector [1]) ∧
        (NoLateRequest qualifiedVector [1] →
          (TypeReferencesResolve qualifiedVector s ↔ TypesPrinted qualifiedVector [1])) := by
  have hkept : TypedefQualsKept qualifiedVector := by unfold TypedefQualsKept; decide
  exact ⟨hkept, typeReferencesResolve_iff_typesPrinted qualifiedVector [1] hkept⟩

/-- In the dump of `qualifiedVector` from `x`, no element has the id in `type="_3c"`. -/
theorem not_typeReferencesResolve_qualifiedVector :
    TypedefQualsKept qualifiedVector ∧
      (∀ t, qualifiedVector.typeMainVariant (qualifiedVector.typeMainVariant t) = qualifiedVector.typeMainVariant t ∧
        (qualifiedVector.tree (qualifiedVector.typeMainVariant t)).cpTypeQuals = Quals.none) ∧
      ∃ s, doXmlOutput qualifiedVector [1] 14 = some s ∧ ¬ TypeReferencesResolve qualifiedVector s := by
  refine ⟨by unfold TypedefQualsKept; decide, by decide, _, rfl, fun h => ?_⟩
  have hres := (h (2, 3, { isConst := true }) (by decide)).once
  exact absurd hres (by decide)

end GccXml
