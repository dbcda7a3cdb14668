import GccXml.Xml.Text

namespace GccXml

/-! # `Xml.References` — references that are only an id

The attributes that refer to declarations and classes hold plain ids. Some of them skip what `xml_add_node` declines,
the others print its answer as it is.

As for types, a table says what a node refers to. `plainTargets` has two lists for a node: the targets that are printed
in any case, and those that are left out when they are declined. The table is compared with the element functions once,
and after that a reference of the document is known by the node that is printed and its target.

The answer to a request is a node or nothing, and nothing is printed as the index 0. A reference dangles if its index
is 0, or if no element has it. An index other than 0 is that of a node that was queued, and that node has been taken
out at the end of a run; so the element is missing only if `xml_dump_tree_node` prints none for it, or prints it under
another id. Both are properties of the graph, which gives the condition of the theorem. In the example at the end
the class `L` is printed, and its context is a function that is declined because it is at line 0. -/

open DumpInfo

section
variable {Node ι φ : Type}

/-! ## Plain references -/

/-- The attributes with plain ids. -/
def plainReferenceNames : List String :=
  ["context", "basetype", "namespace", "befriending", "members", "bases", "overrides"]

/-- An attribute with plain ids: one of those above, or the `type` of a `Base`. -/
def isPlainReference (tag name : String) : Bool := name ∈ plainReferenceNames || (tag = "Base" && name = "type")

/-- The plain id of a piece. -/
def Piece.id? : Piece Node ι φ → Option ι
  | .id i => some i
  | _ => none

/-- The plain ids in the attributes `attrs` of an element with the tag `tag`. -/
def plainIds (tag : String) (attrs : List (String × List (Piece Node ι φ))) : List ι :=
  attrs.flatMap fun a => if isPlainReference tag a.1 then a.2.filterMap Piece.id? else []

/-- The plain references of a list of elements. -/
def plainReferences (es : List (Element Node ι φ)) : List ι := es.flatMap fun e => plainIds e.tag e.attrs

theorem filterMap_id?_filter (value : List (Piece Node ι φ)) :
    (value.filter Piece.isRef).filterMap Piece.id? = value.filterMap Piece.id? := by
  induction value with
  | nil => rfl
  | cons x xs ih =>
      cases x with
      | id i => exact congrArg (i :: ·) ih
      | _ => exact ih

/-- The plain ids are among the references. -/
theorem plainIds_eq (tag : String) (attrs : List (String × List (Piece Node ι φ))) :
    plainIds tag attrs = (attrRefs attrs).filterMap fun r => if isPlainReference tag r.1 then r.2.id? else none := by
  unfold plainIds attrRefs
  rw [List.filterMap_flatMap]
  refine congrArg List.flatten (List.map_congr_left fun a _ => ?_)
  rw [List.filterMap_map]
  by_cases hplain : isPlainReference tag a.1 = true
  · rw [if_pos hplain, ← filterMap_id?_filter]
    simp [hplain]
  · rw [if_neg hplain]
    simp [hplain]

end

section
variable {Node : Type} [DecidableEq Node] (tu : TranslationUnit Node)

/-- The plain references that a block of attributes writes in an element with the tag `tag`. -/
def plainRefsOf (tag : String) (p : Print Node Unit) : List (Option Node) := plainIds tag (attrsOf p)

omit [DecidableEq Node] in
theorem plainRefsOf_eq (tag : String) (p : Print Node Unit) :
    plainRefsOf tag p = (refsOf p).filterMap fun r => if isPlainReference tag r.1 then r.2.id? else none :=
  plainIds_eq tag _

/-! ## What a node refers to -/

/-- The plain references of a node: those printed whatever the answer is, and those left out when it is 0. -/
structure PlainTargets (Node : Type) where
  always : List Node := []
  listed : List Node := []

/-- The plain references of the type `t` when it is its own main variant. -/
def mainVariantTargets (t : Node) (c : Bool) : PlainTargets Node :=
  match tu.treeCode t with
  | .unionType | .qualUnionType | .recordType =>
      { always := contextTargets tu (tu.typeNameOf t) ++ listedFriends tu (tu.tree t).befriendingClasses
          ++ ((printedBases tu t c).getD []).map (·.type)
        listed := if c && (tu.tree t).completeTypeP then listedMembers tu t else [] }
  | .methodType => { always := [(tu.tree t).typeMethodBasetype.getD t] }
  | .offsetType => { always := [(tu.tree t).typeOffsetBasetype.getD t] }
  | .enumeralType => { always := contextTargets tu (tu.typeNameOf t) }
  | _ => {}

/-- **The plain references of `n`**, printed with the flag `c`. -/
def plainTargets (n : Node) (c : Bool) : PlainTargets Node :=
  match tu.treeCode n with
  | .namespaceDecl =>
      if (tu.tree n).declNamespaceAlias = none then
        { always := contextTargets tu n, listed := if c then tu.allDecls n else [] }
      else { always := contextTargets tu n ++ [realNamespace tu n] }
  | .functionDecl =>
      { always := contextTargets tu n ++ listedFriends tu (tu.tree n).befriendingClasses
        listed := printedOverrides tu n }
  | .typeDecl | .varDecl | .fieldDecl => { always := contextTargets tu n }
  | .unionType | .qualUnionType | .recordType | .arrayType | .pointerType | .referenceType | .functionType
  | .methodType | .offsetType | .enumeralType | .langType | .integerType | .booleanType | .realType
  | .voidType | .complexType =>
      if n = tu.typeMainVariant n then mainVariantTargets tu n c else {}
  | _ => {}

/-- The answers of a list of targets. -/
def PlainTargets.refs (t : PlainTargets Node) : List (Option Node) :=
  t.always.map (answer tu) ++ (t.listed.filterMap (answer tu)).map some

/-! ## The table is right -/

theorem plainRefs_namespace (n : Node) (c : Bool) :
    plainRefsOf "Namespace" (namespaceAttributes tu n c) =
      (contextTargets tu n).map (answer tu) ++
        ((if c then tu.allDecls n else []).filterMap (answer tu)).map some := by
  rw [plainRefsOf_eq]
  cases c <;>
    simp [namespaceAttributes, List.filterMap_map, isPlainReference, plainReferenceNames, Piece.id?]

theorem plainRefs_namespaceAlias (n : Node) :
    plainRefsOf "NamespaceAlias" (namespaceAliasAttributes tu n) =
      (contextTargets tu n).map (answer tu) ++ [answer tu (realNamespace tu n)] := by
  rw [plainRefsOf_eq]
  simp [namespaceAliasAttributes, List.filterMap_map, isPlainReference, plainReferenceNames, Piece.id?]

theorem plainRefs_typedef (n : Node) (c : Bool) :
    plainRefsOf "Typedef" (typedefAttributes tu n c) = (contextTargets tu n).map (answer tu) := by
  rw [plainRefsOf_eq]
  simp [typedefAttributes, List.filterMap_map, isPlainReference, plainReferenceNames, Piece.id?, typeRef]

theorem plainRefs_varDecl (n : Node) (c : Bool) :
    plainRefsOf "Variable" (varDeclAttributes tu n c) = (contextTargets tu n).map (answer tu) := by
  rw [plainRefsOf_eq]
  simp [varDeclAttributes, List.filterMap_map, isPlainReference, plainReferenceNames, Piece.id?, typeRef]

theorem plainRefs_fieldDecl (n : Node) (c : Bool) :
    plainRefsOf "Field" (fieldDeclAttributes tu n c) = (contextTargets tu n).map (answer tu) := by
  rw [plainRefsOf_eq]
  simp [fieldDeclAttributes, List.filterMap_map, isPlainReference, plainReferenceNames, Piece.id?, typeRef]

theorem plainRefs_function (n : Node) (c : Bool) :
    (plainRefsOf (functionShape tu n).tag (functionAttributes tu n c)) =
      ((printedOverrides tu n).filterMap (answer tu)).map some ++ (contextTargets tu n).map (answer tu) ++
      (listedFriends tu (tu.tree n).befriendingClasses).map (answer tu) := by
  have hoverrides : (if (functionShape tu n).doVirtual = true then
        if (tu.tree n).declVirtualP = true then
          ((overriddenMethods tu n).filterMap (answer tu)).map fun r => (("overrides", .id (some r)) : String × SymPiece Node)
        else [] else []) =
      ((printedOverrides tu n).filterMap (answer tu)).map fun r => (("overrides", .id (some r)) : String × SymPiece Node) := by
    unfold printedOverrides
    cases (functionShape tu n).doVirtual <;> cases (tu.tree n).declVirtualP <;> rfl
  rw [plainRefsOf_eq]
  simp [functionAttributes, List.filterMap_map, isPlainReference, plainReferenceNames, Piece.id?, typeRef, hoverrides]

theorem plainRefs_record (tag : String) (n : Node) (c : Bool) :
    plainRefsOf tag (recordAttributes tu n c) =
      (contextTargets tu (tu.typeNameOf n)).map (answer tu) ++
        (listedFriends tu (tu.tree n).befriendingClasses).map (answer tu) ++
        ((if c && (tu.tree n).completeTypeP then listedMembers tu n else []).filterMap (answer tu)).map some ++
        ((printedBases tu n c).getD []).map fun base => answer tu base.type := by
  rw [plainRefsOf_eq]
  cases hmembers : c && (tu.tree n).completeTypeP <;> cases hbases : printedBases tu n c <;>
    simp [recordAttributes, List.filterMap_map, isPlainReference, plainReferenceNames, Piece.id?, hmembers, hbases]

omit [DecidableEq Node] in
theorem plainRefs_base (base : BaseBinfo Node) (i : Option Node) :
    plainRefsOf "Base" (baseAttributes base i) = [i] := by
  rw [plainRefsOf_eq]
  simp [baseAttributes, isPlainReference, Piece.id?]

omit [DecidableEq Node] in
theorem plainRefs_fundamentalType (n : Node) :
    plainRefsOf "FundamentalType" (fundamentalTypeAttributes tu n) = [] := by
  rw [plainRefsOf_eq]
  cases hname : (tu.tree n).typeName <;>
    simp [fundamentalTypeAttributes, hname, isPlainReference, plainReferenceNames]

theorem plainRefs_functionType (n : Node) (c : Bool) :
    plainRefsOf "FunctionType" (functionTypeAttributes tu n c) = [] := by
  rw [plainRefsOf_eq]
  simp [functionTypeAttributes, isPlainReference, plainReferenceNames, Piece.id?, typeRef]

theorem plainRefs_methodType (n : Node) (c : Bool) :
    plainRefsOf "MethodType" (methodTypeAttributes tu n c) = [answer tu ((tu.tree n).typeMethodBasetype.getD n)] := by
  rw [plainRefsOf_eq]
  simp [methodTypeAttributes, isPlainReference, plainReferenceNames, Piece.id?, typeRef]

theorem plainRefs_indirectType (tag : String) (n : Node) :
    plainRefsOf tag (indirectTypeAttributes tu n) = [] := by
  rw [plainRefsOf_eq]
  simp [indirectTypeAttributes, isPlainReference, plainReferenceNames, Piece.id?, typeRef]

theorem plainRefs_offsetType (n : Node) (c : Bool) :
    plainRefsOf "OffsetType" (offsetTypeAttributes tu n c) = [answer tu ((tu.tree n).typeOffsetBasetype.getD n)] := by
  rw [plainRefsOf_eq]
  simp [offsetTypeAttributes, isPlainReference, plainReferenceNames, Piece.id?, typeRef]

theorem plainRefs_arrayType (n : Node) (c : Bool) :
    plainRefsOf "ArrayType" (arrayTypeAttributes tu n c) = [] := by
  rw [plainRefsOf_eq]
  simp [arrayTypeAttributes, isPlainReference, plainReferenceNames, Piece.id?, typeRef]

theorem plainRefs_enumeralType (n : Node) :
    plainRefsOf "Enumeration" (enumeralTypeAttributes tu n) =
      (contextTargets tu (tu.typeNameOf n)).map (answer tu) := by
  rw [plainRefsOf_eq]
  simp [enumeralTypeAttributes, List.filterMap_map, isPlainReference, plainReferenceNames, Piece.id?]

omit [DecidableEq Node] in
theorem plainRefs_enumValue (tv : Option String × Node) :
    plainIds (enumValueChild tu tv).element.tag (enumValueChild tu tv).element.attrs = [] := by
  unfold enumValueChild
  split
  · show plainRefsOf "EnumValue" (enumValueAttributes tu tv.1 tv.2) = []
    rw [plainRefsOf_eq]
    simp [enumValueAttributes]
  · show plainRefsOf "Unimplemented" (unimplementedAttributes tu tv.2 none _) = []
    rw [plainRefsOf_eq]
    simp [unimplementedAttributes]

omit [DecidableEq Node] in
theorem plainRefs_unimplemented (n : Node) :
    plainRefsOf "Unimplemented" (unimplementedAttributes tu n (some n) none) = [] := by
  rw [plainRefsOf_eq]
  simp [unimplementedAttributes, isPlainReference, plainReferenceNames]

theorem plainRefs_argument (c : Bool) (arg : Option (ParmDecl Node) × ArgType Node) :
    plainRefsOf "Argument" (argumentAttributes tu arg.1 arg.2 c) = [] := by
  rw [plainRefsOf_eq]
  cases arg.1 <;>
    simp [argumentAttributes, isPlainReference, plainReferenceNames, Piece.id?, typeRef]

theorem plainRefs_cvQualifiedType (n : Node) :
    plainIds (cvElement tu n).tag (cvElement tu n).attrs = [] := by
  show plainRefsOf "CvQualifiedType" (cvQualifiedTypeAttributes n _ _) = []
  rw [plainRefsOf_eq]
  simp [cvQualifiedTypeAttributes, refsOf_writeAttr, isPlainReference, plainReferenceNames]

/-! ## The references of a node's elements -/

omit [DecidableEq Node] in
theorem plainReferences_some (e : SymEntry Node) :
    plainReferences ((some e).toList.flatMap Entry.elements) = plainIds e.element.tag e.element.attrs ++
      (e.children.getD []).flatMap fun child => plainIds child.element.tag child.element.attrs := by
  simp [plainReferences, Entry.elements, List.flatMap_map]

omit [DecidableEq Node] in
/-- An entry whose children have no plain references has those of its attributes. -/
theorem plainReferences_of_attrs {tag : String} {p : Print Node Unit} {children : Option (List (SymChild Node))}
    {refs : List (Option Node)} (hattrs : plainRefsOf tag p = refs)
    (hchildren : ((children.getD []).flatMap fun child => plainIds child.element.tag child.element.attrs) = []) :
    plainReferences ((some (⟨⟨tag, attrsOf p⟩, children⟩ : SymEntry Node)).toList.flatMap Entry.elements) = refs := by
  rw [plainReferences_some, hchildren, List.append_nil]
  exact hattrs

/-- Arguments and the ellipsis have no plain references. -/
theorem plainRefs_argumentChildren (c : Bool) (args : List (Option (ParmDecl Node) × ArgType Node)) (endVoid : Bool) :
    ((argumentChildren tu c args endVoid).flatMap fun child => plainIds child.element.tag child.element.attrs) = [] := by
  refine List.flatMap_eq_nil_iff.mpr fun child hchild => ?_
  rcases List.mem_append.mp hchild with hchild | hchild
  · obtain ⟨arg, -, rfl⟩ := List.mem_map.mp hchild
    exact plainRefs_argument tu c arg
  · unfold ellipsisChild at hchild
    split at hchild
    · simp at hchild
    · rw [List.mem_singleton.mp hchild]; rfl

theorem plainRefs_functionChildren (n : Node) (c : Bool) :
    (((functionChildren tu n c).getD []).flatMap fun child => plainIds child.element.tag child.element.attrs) = [] := by
  unfold functionChildren
  dsimp only
  split
  · rfl
  · exact plainRefs_argumentChildren tu c _ _

/-- The `Base` elements refer to what the `bases` attribute refers to. -/
theorem plainRefs_recordChildren (n : Node) (c : Bool) :
    (((recordChildren tu n c).getD []).flatMap fun child => plainIds child.element.tag child.element.attrs) =
      ((printedBases tu n c).getD []).map fun base => answer tu base.type := by
  have hbase : ∀ base : BaseBinfo Node,
      plainIds (baseChild tu base).element.tag (baseChild tu base).element.attrs = [answer tu base.type] :=
    fun base => plainRefs_base base _
  unfold recordChildren
  dsimp only
  split
  · rename_i hnil
    rw [List.isEmpty_iff.mp hnil]
    rfl
  · simp only [Option.getD_some, List.flatMap_map, hbase]
    exact List.map_eq_flatMap.symm

omit [DecidableEq Node] in
theorem plainRefs_enumValues (tvs : List (Option String × Node)) :
    ((tvs.map (enumValueChild tu)).flatMap fun child => plainIds child.element.tag child.element.attrs) = [] := by
  refine List.flatMap_eq_nil_iff.mpr fun child hchild => ?_
  obtain ⟨tv, -, rfl⟩ := List.mem_map.mp hchild
  exact plainRefs_enumValue tu tv

/-- The table of a main variant is right. -/
theorem mem_plainReferences_mainVariant (n : Node) (c : Bool) (i : Option Node) :
    i ∈ plainReferences ((mainVariantEntry tu n c).toList.flatMap Entry.elements) ↔
      i ∈ (mainVariantTargets tu n c).refs tu := by
  unfold mainVariantEntry mainVariantTargets
  split <;> rename_i hcode <;> simp only [hcode]
  case h_1 | h_2 | h_3 =>
    have hattrs := plainRefs_record tu (recordTag tu n) n c
    rw [plainRefsOf] at hattrs
    rw [plainReferences_some, plainRefs_recordChildren, hattrs]
    simp only [PlainTargets.refs, List.map_append, List.map_map, List.mem_append, Function.comp_def]
    tauto
  case h_4 => rw [plainReferences_of_attrs (plainRefs_arrayType tu n c) rfl]; exact Iff.rfl
  case h_5 | h_6 => rw [plainReferences_of_attrs (plainRefs_indirectType tu _ n) rfl]; exact Iff.rfl
  case h_7 =>
    refine iff_of_eq (congrArg (i ∈ ·) (plainReferences_of_attrs (plainRefs_functionType tu n c) ?_))
    exact plainRefs_argumentChildren tu c _ _
  case h_8 =>
    refine iff_of_eq (congrArg (i ∈ ·) (plainReferences_of_attrs (plainRefs_methodType tu n c) ?_))
    exact plainRefs_argumentChildren tu c _ _
  case h_9 => rw [plainReferences_of_attrs (plainRefs_offsetType tu n c) rfl]; exact Iff.rfl
  case h_10 =>
    rw [@plainReferences_of_attrs _ _ _ (some _) _ (plainRefs_enumeralType tu n) (plainRefs_enumValues tu _)]
    simp [PlainTargets.refs]
  -- the fundamental types
  case h_11 | h_12 | h_13 | h_14 | h_15 | h_16 =>
    rw [plainReferences_of_attrs (plainRefs_fundamentalType tu n) rfl]
    exact Iff.rfl
  case h_17 => simp [plainReferences, PlainTargets.refs]

/-- A variant refers to types only. -/
theorem plainReferences_variant (n : Node) :
    plainReferences ((variantEntry tu n).toList.flatMap Entry.elements) = [] := by
  unfold variantEntry
  split
  · exact plainReferences_of_attrs (plainRefs_cvQualifiedType tu n) rfl
  · rfl

/-- **The plain references of a node** are the answers of its targets. -/
theorem mem_plainReferences_nodeElements (n : Node) (c : Bool) (i : Option Node) :
    i ∈ plainReferences (nodeElements tu (n, c)) ↔ i ∈ (plainTargets tu n c).refs tu := by
  unfold nodeElements nodeEntry plainTargets
  dsimp only
  split <;> rename_i hcode <;> simp only [hcode]
  case h_1 =>
    split
    · rw [plainReferences_of_attrs (plainRefs_namespace tu n c) rfl]; exact Iff.rfl
    · rw [plainReferences_of_attrs (plainRefs_namespaceAlias tu n) rfl]
      simp [PlainTargets.refs]
  case h_2 =>
    rw [plainReferences_of_attrs (plainRefs_typedef tu n c) rfl]
    simp [PlainTargets.refs]
  case h_3 =>
    rw [plainReferences_of_attrs (plainRefs_function tu n c) (plainRefs_functionChildren tu n c)]
    simp only [PlainTargets.refs, List.map_append, List.mem_append]
    tauto
  case h_4 =>
    rw [plainReferences_of_attrs (plainRefs_varDecl tu n c) rfl]
    simp [PlainTargets.refs]
  case h_5 =>
    rw [plainReferences_of_attrs (plainRefs_fieldDecl tu n c) rfl]
    simp [PlainTargets.refs]
  case h_22 =>
    rw [plainReferences_of_attrs (plainRefs_unimplemented tu n) rfl]
    simp [PlainTargets.refs]
  -- the codes of types share one branch, and a variant refers to types only
  all_goals
    split
    · exact mem_plainReferences_mainVariant tu n c i
    · rw [plainReferences_variant]; simp [PlainTargets.refs]

end

/-! ## The references of the document -/

section
variable {Node : Type} [DecidableEq Node] {tu : TranslationUnit Node} {starts : List Node}

omit [DecidableEq Node] in
/-- The references of an element with the indices filled in. -/
theorem attrRefs_fillElement (s : DumpInfo Node) (e : SymElement Node) :
    attrRefs (s.fillElement e).attrs = (attrRefs e.attrs).map fun r => (r.1, r.2.fill s.indexOf s.fileIndexOf) := by
  have href : ∀ x : SymPiece Node, (x.fill s.indexOf s.fileIndexOf).isRef = x.isRef := by
    intro x
    cases x <;> rfl
  unfold attrRefs fillElement Element.fill
  rw [List.flatMap_map, List.map_flatMap]
  refine congrArg List.flatten (List.map_congr_left fun a _ => ?_)
  simp [List.filter_map, Function.comp_def, href]

omit [DecidableEq Node] in
theorem id?_fill (s : DumpInfo Node) (x : SymPiece Node) :
    (x.fill s.indexOf s.fileIndexOf).id? = x.id?.map s.indexOf := by
  cases x <;> rfl

omit [DecidableEq Node] in
theorem plainIds_fillElement (s : DumpInfo Node) (e : SymElement Node) :
    plainIds (s.fillElement e).tag (s.fillElement e).attrs = (plainIds e.tag e.attrs).map s.indexOf := by
  rw [plainIds_eq, plainIds_eq, attrRefs_fillElement, List.filterMap_map, List.map_filterMap]
  refine List.filterMap_congr fun r _ => ?_
  show (if isPlainReference e.tag r.1 then (r.2.fill s.indexOf s.fileIndexOf).id? else none) = _
  split
  · exact id?_fill s r.2
  · rfl

/-- **The plain references of the document** are the indices of the answers of the targets of the printed nodes. -/
theorem PhasesEnd.mem_plainReferences {s₁ s₂ : DumpInfo Node} (h : PhasesEnd tu starts s₁ s₂) {i : Nat} :
    i ∈ plainReferences (GccXml.elements (finishDump s₂).file) ↔
      ∃ d ∈ s₂.dumped, ∃ r ∈ (plainTargets tu d.1 d.2).refs tu, s₂.indexOf r = i := by
  have hroot : plainIds (rootElement tu).tag (rootElement tu).attrs = [] := by
    unfold rootElement
    cases tu.gccxmlVersionFull <;> rfl
  have hnode : ∀ d : Node × Bool, i ∈ plainReferences ((nodeElements tu d).map s₂.fillElement) ↔
      ∃ r ∈ (plainTargets tu d.1 d.2).refs tu, s₂.indexOf r = i := by
    intro d
    have hmap : plainReferences ((nodeElements tu d).map s₂.fillElement) =
        (plainReferences (nodeElements tu d)).map s₂.indexOf := by
      unfold plainReferences
      rw [List.flatMap_map, List.map_flatMap]
      exact congrArg List.flatten (List.map_congr_left fun e _ => plainIds_fillElement s₂ e)
    rw [hmap, List.mem_map]
    exact exists_congr fun r => and_congr_left fun _ => mem_plainReferences_nodeElements tu d.1 d.2 r
  constructor
  · intro hi
    obtain ⟨e, he, hie⟩ := List.mem_flatMap.mp hi
    rcases h.mem_elements.mp he with rfl | ⟨d, hd, e', he', rfl⟩ | ⟨f, -, rfl⟩
    · rw [hroot] at hie; simp at hie
    · refine ⟨d, hd, (hnode d).mp ?_⟩
      exact List.mem_flatMap.mpr ⟨_, List.mem_map.mpr ⟨e', he', rfl⟩, hie⟩
    · simp [fileElement, plainIds, isPlainReference, plainReferenceNames] at hie
  · rintro ⟨d, hd, hr⟩
    obtain ⟨e, he, hie⟩ := List.mem_flatMap.mp ((hnode d).mpr hr)
    obtain ⟨e', he', rfl⟩ := List.mem_map.mp he
    exact List.mem_flatMap.mpr ⟨_, h.mem_elements.mpr (Or.inr (Or.inl ⟨d, hd, e', he', rfl⟩)), hie⟩

omit [DecidableEq Node] in
/-- The attributes of the elements of an entry are written. -/
theorem ofAttr_mem_frags {e : SymEntry Node} {el : SymElement Node} (hel : el ∈ e.elements)
    {a : String × List (SymPiece Node)} (ha : a ∈ el.attrs) : Frag.ofAttr a ∈ e.frags := by
  have hopen : ∀ (el : SymElement Node) (indent : Nat), a ∈ el.attrs → Frag.ofAttr a ∈ el.openFrags indent :=
    fun el indent ha => List.mem_cons_of_mem _ (List.mem_map.mpr ⟨a, ha, rfl⟩)
  unfold Entry.frags
  rcases List.mem_cons.mp hel with rfl | hel
  · exact List.mem_append_left _ (hopen _ _ ha)
  · obtain ⟨child, hchild, rfl⟩ := List.mem_map.mp hel
    cases hcs : e.children with
    | none => simp [hcs] at hchild
    | some cs =>
        rw [hcs, Option.getD_some] at hchild
        have hmem : Frag.ofAttr a ∈ child.frags := by
          unfold Child.frags
          simp [hopen _ _ ha]
        have hall : Frag.ofAttr a ∈ cs.flatMap Child.frags := List.mem_flatMap.mpr ⟨child, hchild, hmem⟩
        simp [hall]

/-- What the document refers to has an index. -/
theorem PhasesEnd.known {s₁ s₂ : DumpInfo Node} (h : PhasesEnd tu starts s₁ s₂) {d : Node × Bool}
    (hd : d ∈ s₂.dumped) {e : SymElement Node} (he : e ∈ nodeElements tu d) {a : String × List (SymPiece Node)}
    (ha : a ∈ e.attrs) {x : SymPiece Node} (hx : x ∈ a.2) : Known s₂ x := by
  obtain ⟨entry, hentry, hel⟩ := List.mem_flatMap.mp he
  have hfrag : Frag.ofAttr a ∈ entryFrags (nodeEntry tu d.1 d.2) :=
    List.mem_flatMap.mpr ⟨entry, hentry, ofAttr_mem_frags hel ha⟩
  exact h.written.known _ (List.mem_append_right _ (List.mem_flatMap.mpr ⟨d, hd, hfrag⟩)) x hx

theorem PhasesEnd.index_of_plainTarget {s₁ s₂ : DumpInfo Node} (h : PhasesEnd tu starts s₁ s₂) {d : Node × Bool}
    (hd : d ∈ s₂.dumped) {r : Node} (hr : some r ∈ (plainTargets tu d.1 d.2).refs tu) : s₂.index r ≠ 0 := by
  rw [← mem_plainReferences_nodeElements] at hr
  obtain ⟨e, he, hr⟩ := List.mem_flatMap.mp hr
  obtain ⟨a, ha, hr⟩ := List.mem_flatMap.mp hr
  split at hr
  · obtain ⟨x, hx, hid⟩ := List.mem_filterMap.mp hr
    refine (h.known hd he ha hx).1 r ?_
    cases x <;> simp_all [Piece.id?, Piece.node?]
  · simp at hr

/-! ## No dangling references -/

/-- **No dangling references**: every plain reference of the document is nonzero and is the id of one of its
    elements. -/
def NoDangling (s : DumpInfo Node) : Prop :=
  ∀ i ∈ plainReferences (elements s.file),
    i ≠ 0 ∧ ∃ e ∈ elements s.file, e.idText = some (refText i Quals.none)

variable (tu) in
/-- What `n` refers to is not declined by `xml_add_node`, unless the reference is left out then, and is printed under
    its own id. -/
def TargetsPrinted (n : Node) (c : Bool) : Prop :=
  (∀ m ∈ (plainTargets tu n c).always, ∃ r, answer tu m = some r ∧ PrintsOwnId tu r) ∧
    ∀ m ∈ (plainTargets tu n c).listed, ∀ r, answer tu m = some r → PrintsOwnId tu r

theorem targetsPrinted_iff {n : Node} {c : Bool} :
    TargetsPrinted tu n c ↔ ∀ i ∈ (plainTargets tu n c).refs tu, ∃ r, i = some r ∧ PrintsOwnId tu r := by
  simp only [TargetsPrinted, PlainTargets.refs, List.mem_append, List.mem_map, List.mem_filterMap]
  constructor
  · rintro ⟨halways, hlisted⟩ i (⟨m, hm, rfl⟩ | ⟨r, ⟨m, hm, hr⟩, rfl⟩)
    · exact halways m hm
    · exact ⟨r, rfl, hlisted m hm r hr⟩
  · intro h
    refine ⟨fun m hm => h _ (Or.inl ⟨m, hm, rfl⟩), fun m hm r hr => ?_⟩
    obtain ⟨r', he, hown⟩ := h (some r) (Or.inr ⟨r, ⟨m, hm, hr⟩, rfl⟩)
    cases he
    exact hown

/-- A complete node refers to what the incomplete one refers to. -/
theorem plainTargets_false_subset (n : Node) :
    (plainTargets tu n false).always ⊆ (plainTargets tu n true).always ∧
      (plainTargets tu n false).listed ⊆ (plainTargets tu n true).listed := by
  have hrefl : ∀ t : PlainTargets Node, t.always ⊆ t.always ∧ t.listed ⊆ t.listed :=
    fun _ => ⟨List.Subset.refl _, List.Subset.refl _⟩
  unfold plainTargets
  split
  -- an incomplete namespace lists no members
  case h_1 =>
    split
    · exact ⟨List.Subset.refl _, List.nil_subset _⟩
    · exact hrefl _
  case h_2 | h_3 | h_4 | h_5 | h_22 => exact hrefl _
  all_goals
    split
    · unfold mainVariantTargets
      split
      -- an incomplete class lists neither members nor bases
      case h_1 | h_2 | h_3 =>
        refine ⟨?_, List.nil_subset _⟩
        have hbases : printedBases tu n false = none := rfl
        rw [hbases]
        exact List.append_subset.mpr ⟨List.subset_append_left _ _, List.nil_subset _⟩
      all_goals exact hrefl _
    · exact hrefl _

theorem plainTargets_mono {n : Node} {c c' : Bool} (hc : c = true → c' = true) {i : Option Node}
    (hi : i ∈ (plainTargets tu n c).refs tu) : i ∈ (plainTargets tu n c').refs tu := by
  have hsubset : (plainTargets tu n c).always ⊆ (plainTargets tu n c').always ∧
      (plainTargets tu n c).listed ⊆ (plainTargets tu n c').listed := by
    cases c with
    | true => rw [hc rfl]; exact ⟨List.Subset.refl _, List.Subset.refl _⟩
    | false =>
        cases c' with
        | false => exact ⟨List.Subset.refl _, List.Subset.refl _⟩
        | true => exact plainTargets_false_subset n
  refine List.mem_append.mpr ((List.mem_append.mp hi).imp ?_ ?_)
  · exact fun hi => List.map_subset _ hsubset.1 hi
  · exact fun hi => List.map_subset _ (List.filterMap_subset _ hsubset.2) hi

/-- A plain reference is the id of an element if and only if its node is printed under its own id. -/
theorem PhasesEnd.exists_idText_iff {s₁ s₂ : DumpInfo Node} (h : PhasesEnd tu starts s₁ s₂) {r : Node}
    (hr : s₂.index r ≠ 0) :
    (∃ e ∈ GccXml.elements (finishDump s₂).file, e.idText = some (refText (s₂.index r) Quals.none)) ↔
      PrintsOwnId tu r := by
  constructor
  · rintro ⟨e, he, ht⟩
    rcases h.idText_cases he ht with ⟨d, -, hown, heq⟩ | ⟨d, -, -, hsuffix, -, heq⟩ | ⟨i, heq⟩
    · have hindex : s₂.index r = s₂.index d.1 := (refText_inj.mp heq).1
      rwa [h.running.1.coherent.index_inj r d.1 hr hindex]
    · exact absurd (refText_inj.mp heq).2.symm hsuffix
    · exact absurd heq (refText_ne_fileText _ _ _)
  · intro hown
    exact h.exists_own (h.printed hr) hown

theorem PhasesEnd.noDangling_iff {s₁ s₂ : DumpInfo Node} (h : PhasesEnd tu starts s₁ s₂) :
    NoDangling (finishDump s₂) ↔ ∀ n c, Reached tu starts n c → TargetsPrinted tu n c := by
  constructor
  · intro hno n c hreached
    rw [targetsPrinted_iff]
    intro i hi
    obtain ⟨hn, hcomp⟩ := h.reached hreached
    -- `n` was printed at least as complete as it was reached, so the reference is in the document
    have hmem : s₂.indexOf i ∈ plainReferences (GccXml.elements (finishDump s₂).file) :=
      h.mem_plainReferences.mpr ⟨_, h.printed hn, i, plainTargets_mono hcomp hi, rfl⟩
    obtain ⟨hne, hexists⟩ := hno _ hmem
    cases i with
    | none => exact absurd rfl hne
    | some r => exact ⟨r, rfl, (h.exists_idText_iff hne).mp hexists⟩
  · intro hprinted i hi
    obtain ⟨d, hd, r, hr, rfl⟩ := h.mem_plainReferences.mp hi
    have hreached := h.running.1.onlyReached.dumped d hd
    obtain ⟨r, rfl, hown⟩ := targetsPrinted_iff.mp (hprinted d.1 d.2 hreached) r hr
    have hne := h.index_of_plainTarget hd hr
    exact ⟨hne, (h.exists_idText_iff hne).mpr hown⟩

/-- **When no plain reference dangles.** Every run ends, and no plain reference of its document dangles if and only
    if every node that is reached refers to nodes only that `xml_add_node` accepts and that are printed under their
    own id; an overridden method or a member that it declines is left out. -/
theorem noDangling_iff_targetsPrinted (tu : TranslationUnit Node) (starts : List Node) :
    ∃ s, (∀ fuel, 2 * tu.nodes.length ≤ fuel → doXmlOutput tu starts fuel = some s) ∧
      (NoDangling s ↔ ∀ n c, Reached tu starts n c → TargetsPrinted tu n c) := by
  obtain ⟨s₁, s₂, h, -⟩ := exists_phasesEnd tu starts
  exact ⟨finishDump s₂, fun fuel hf => (h.doXmlOutput hf).2, h.noDangling_iff⟩

end

/-! ### A class local to a function at line 0

The unit is `class g;` and, after a `#line 0` directive, `void f() { class L { friend class ::g; }; }`. -/

/-- The nodes of the example, in the order of their addresses. -/
def befriendedInLineZero : TranslationUnit (Fin 10) where
  globalNamespace := 0
  tree
    | 0 => { code := .namespaceDecl, declName := some "::" }
    | 1 => { code := .typeDecl, declName := some "g", declContext := some 0, treeType := some 2
             declImplicitTypedefP := true, declArtificial := true }
    | 2 => { code := .recordType, typeName := some 1, completeTypeP := false, classtypeDeclaredClass := true
             befriendingClasses := [3] }
    | 3 => { code := .recordType, typeName := some 4, classtypeDeclaredClass := true, typeBinfo := some [] }
    | 4 => { code := .typeDecl, declName := some "L", declContext := some 5, declSourceLine := 0, treeType := some 3
             declImplicitTypedefP := true, declArtificial := true }
    | 5 => { code := .functionDecl, declName := some "f", declContext := some 0, declSourceLine := 0
             treeType := some 6 }
    | 6 => { code := .functionType, treeType := some 7 }
    | 7 => { code := .voidType, typeName := some 8 }
    | 8 => { code := .typeDecl, declName := some "void", declSourceLine := 0, treeType := some 7 }
    | _ => { code := .namespaceDecl, declName := some "std", declContext := some 0 }
  nodes := List.finRange 10
  mem_nodes := List.mem_finRange
  address := Fin.val
  nodes_sorted := by decide
  rank
    | 1 | 4 | 8 => 1
    | _ => 0
  rank_lt := by decide

/-- In the dump of `befriendedInLineZero` from `g`, the class `L` is printed with the context `_0`. -/
theorem not_noDangling_befriendedInLineZero :
    ∃ s, doXmlOutput befriendedInLineZero [1] 20 = some s ∧ ¬ NoDangling s ∧ 0 ∈ plainReferences (elements s.file) := by
  refine ⟨_, rfl, fun h => ?_, by decide⟩
  have hzero := h 0 (by decide)
  exact hzero.1 rfl

end GccXml
