import GccXml.Xml.Print

namespace GccXml

/-! # `Xml.Output` — the elements that `xml.c` writes

One function for each `xml_output_*` function of the source. Each prints the element of a tree node; `complete` is the
`complete` flag of the node's dump node, which is read through `dn` in the source.

A function is a computation in the monad of `Xml.Print`: what it prints, requests and queues is a list of effects in
the order in which the source has them, and what it reads of the tree comes from the translation unit. Effects are not
executed here. So the element of a node can be computed, and reasoned about, without the state of the dump, which only
decides what the indices in it are.

The source has one function for methods, constructors, destructors, converters, operators and plain functions. It sets
a tag and some flags first and prints by the flags; they are collected in `FunctionShape`. `xml_dump_tree_node` at
the end of the module is the switch over the tree codes. -/

section
variable {Node : Type} [DecidableEq Node] (tu : TranslationUnit Node)

/-! ## Namespaces and typedefs -/

/-- The loop of `xml_output_namespace_decl` to the namespace behind an alias, with `fuel` for its length. -/
def realNamespaceFuel : Nat → Node → Node
  | 0, ns => ns
  | fuel + 1, ns =>
      match (tu.tree ns).declNamespaceAlias with
      | some next => realNamespaceFuel fuel next
      | none => ns

/-- The namespace behind an alias. -/
def realNamespace (ns : Node) : Node := realNamespaceFuel tu (tu.rank ns) ns

omit [DecidableEq Node] in
/-- **The loop of the source.** It goes on to the namespace that an alias names, and stops at a real namespace. -/
theorem realNamespace_eq (ns : Node) :
    realNamespace tu ns = (tu.tree ns).declNamespaceAlias.elim ns (realNamespace tu) := by
  -- an alias leads to a smaller rank, so any fuel from the rank on gives the same
  have hfuel : ∀ fuel fuel' ns, tu.rank ns ≤ fuel → tu.rank ns ≤ fuel' →
      realNamespaceFuel tu fuel ns = realNamespaceFuel tu fuel' ns := by
    intro fuel
    induction fuel with
    | zero =>
        intro fuel' ns hf hf'
        have hreal : (tu.tree ns).declNamespaceAlias = none := by
          by_contra hne
          obtain ⟨next, hnext⟩ := Option.ne_none_iff_exists'.mp hne
          have hrank := tu.rank_declNamespaceAlias hnext
          omega
        cases fuel' <;> simp [realNamespaceFuel, hreal]
    | succ fuel ih =>
        intro fuel' ns hf hf'
        cases hnext : (tu.tree ns).declNamespaceAlias with
        | none => cases fuel' <;> simp [realNamespaceFuel, hnext]
        | some next =>
            have hrank := tu.rank_declNamespaceAlias hnext
            obtain ⟨fuel', rfl⟩ : ∃ k, fuel' = k + 1 := ⟨fuel' - 1, by omega⟩
            simp only [realNamespaceFuel, hnext]
            exact ih fuel' next (by omega) (by omega)
  cases hnext : (tu.tree ns).declNamespaceAlias with
  | none =>
      unfold realNamespace
      cases tu.rank ns <;> simp [realNamespaceFuel, hnext]
  | some next =>
      have hrank := tu.rank_declNamespaceAlias hnext
      have hstep : realNamespaceFuel tu (tu.rank ns + 1) ns = realNamespaceFuel tu (tu.rank ns) next := by
        simp only [realNamespaceFuel, hnext]
      show realNamespaceFuel tu (tu.rank ns) ns = realNamespaceFuel tu (tu.rank next) next
      rw [hfuel (tu.rank ns) (tu.rank ns + 1) ns (by omega) (by omega), hstep]
      exact hfuel _ _ next (by omega) (by omega)

/-- One round of a loop that lists a member: its reference, unless the index is 0. -/
def listMember (n : Node) : Print Node (List (SymPiece Node)) := do
  let id ← addNode tu n true
  pure (listedId id)

/-- The `members` attribute of a namespace. -/
def xmlPrintNamespaceMembers (ns : Node) : Print Node Unit := do
  let members ← Trace.collect (tu.allDecls ns) (listMember tu)
  writeAttr "members" members.flatten

/-- The attributes of a real namespace; a complete one is walked. -/
def namespaceAttributes (ns : Node) (complete : Bool) : Print Node Unit := do
  xmlPrintIdAttribute ns
  Trace.when (tu.tree ns).declName.isSome (xmlPrintNameAttribute (tu.tree ns).declName)
  xmlPrintContextAttribute tu ns
  xmlPrintAttributesAttribute (tu.tree ns).declAttributes []
  Trace.when complete (xmlPrintNamespaceMembers tu ns)
  xmlPrintMangledAttribute tu ns
  xmlPrintDemangledAttribute tu ns

/-- The attributes of a namespace alias. -/
def namespaceAliasAttributes (ns : Node) : Print Node Unit := do
  xmlPrintIdAttribute ns
  xmlPrintNameAttribute (tu.tree ns).declName
  xmlPrintContextAttribute tu ns
  let id ← addNode tu (realNamespace tu ns) false
  writeAttr "namespace" [.id id]
  xmlPrintMangledAttribute tu ns
  xmlPrintDemangledAttribute tu ns

/-- `xml_output_namespace_decl`. -/
def xmlOutputNamespaceDecl (ns : Node) (complete : Bool) : Print Node Unit :=
  if (tu.tree ns).declNamespaceAlias = none then do
    emit (.startTag 2 "Namespace")
    namespaceAttributes tu ns complete
    emit .emptyTag
  else do
    emit (.startTag 2 "NamespaceAlias")
    namespaceAliasAttributes tu ns
    emit .emptyTag

/-- The attributes that `xml_output_typedef` writes. -/
def typedefAttributes (td : Node) (complete : Bool) : Print Node Unit := do
  xmlPrintIdAttribute td
  xmlPrintNameAttribute (tu.tree td).declName
  xmlPrintTypeAttribute tu (tu.typedefTarget td) complete
  xmlPrintContextAttribute tu td
  xmlPrintDeclLocationAttribute tu td
  xmlPrintAttributesAttribute (tu.tree td).declAttributes []

/-- `xml_output_typedef`. -/
def xmlOutputTypedef (td : Node) (complete : Bool) : Print Node Unit := do
  emit (.startTag 2 "Typedef")
  typedefAttributes tu td complete
  emit .emptyTag

/-! ## Functions -/

/-- The type that `xml_output_argument` prints: that of the `PARM_DECL` if it has one, where an invisible reference
    is replaced by the real type, else that of the `TREE_LIST`. -/
def argumentType (pd : Option (ParmDecl Node)) (tl : ArgType Node) : Node :=
  match pd with
  | some p =>
      match p.treeType with
      | some t => if p.declByReference then tu.treeType t else t
      | none => tl.value
  | none => tl.value

/-- The attributes that `xml_output_argument` writes. -/
def argumentAttributes (pd : Option (ParmDecl Node)) (tl : ArgType Node) (complete : Bool) :
    Print Node Unit := do
  Trace.whenSome (pd.bind (·.declName)) fun name => xmlPrintNameAttribute (some name)
  xmlPrintTypeAttribute tu (argumentType tu pd tl) complete
  Trace.whenSome (pd.filter (·.treeType.isSome)) fun p =>
    xmlPrintLocationAttribute p.declSourceFile p.declSourceLine
  Trace.whenSome tl.purpose xmlPrintDefaultArgumentAttribute
  Trace.whenSome pd fun p => xmlPrintAttributesAttribute p.declAttributes []

/-- `xml_output_argument`: `pd` is the `PARM_DECL` if there is one, `tl` the node of `TYPE_ARG_TYPES`. -/
def xmlOutputArgument (pd : Option (ParmDecl Node)) (tl : ArgType Node) (complete : Bool) : Print Node Unit :=
  Trace.when (!pd.any (·.declArtificial)) do
    emit (.startTag 4 "Argument")
    argumentAttributes tu pd tl complete
    emit .emptyTag

/-- The loop over the arguments: `DECL_ARGUMENTS` and `TYPE_ARG_TYPES` advance together, and the former may end
    first. -/
def xmlOutputArguments : List (ParmDecl Node) → List (ArgType Node) → Bool → Print Node Unit
  | _, [], _ => pure ()
  | [], tl :: tls, complete => do
      xmlOutputArgument tu none tl complete
      xmlOutputArguments [] tls complete
  | pd :: pds, tl :: tls, complete => do
      xmlOutputArgument tu (some pd) tl complete
      xmlOutputArguments pds tls complete

/-- `xml_reverse_opname_lookup`. -/
def xmlReverseOpnameLookup (name : Option String) : String :=
  let unknownOperator := "{unknown operator}"
  match name with
  | none => unknownOperator
  | some name =>
      if !tu.identifierOpnameP name then unknownOperator
      else
        match tu.operatorNames.find? fun op => op.opname = some name ∨ op.assopname = some name with
        | some op => if op.opname = some name then op.name else op.assignName
        | none => unknownOperator

/-- What `xml_output_function_decl` decides about a function before it prints it. -/
structure FunctionShape where
  tag : String
  name : Option String
  doName : Bool := true
  doReturns : Bool := false
  doConst : Bool := false
  doVirtual : Bool := false
  doStaticMethod : Bool := false
  doStaticFunction : Bool := false
  doArtificial : Bool := false
  doExplicit : Bool := false

/-- The choice of the tag in `xml_output_function_decl`. -/
def functionShape (fd : Node) : FunctionShape :=
  let name := (tu.tree fd).declName
  if (tu.tree fd).declConstructorP then
    { tag := "Constructor", name, doArtificial := true, doExplicit := true
      doName := !((tu.tree fd).declContext.any fun c => (tu.tree c).typeAnonymousP) }
  else if (tu.tree fd).declDestructorP then
    { tag := "Destructor", name, doVirtual := true, doArtificial := true }
  else if (tu.tree fd).declOverloadedOperatorP then
    if (tu.tree fd).declConvFnP then
      { tag := "Converter", name, doReturns := true, doConst := true, doVirtual := true }
    else if (tu.tree fd).declFunctionMemberP then
      { tag := "OperatorMethod", name := some (xmlReverseOpnameLookup tu name), doReturns := true
        doConst := true, doVirtual := true, doStaticMethod := true, doArtificial := true }
    else
      { tag := "OperatorFunction", name := some (xmlReverseOpnameLookup tu name), doStaticFunction := true
        doReturns := true }
  else if (tu.tree fd).declFunctionMemberP then
    { tag := "Method", name, doReturns := true, doConst := true, doVirtual := true, doStaticMethod := true }
  else
    { tag := "Function", name, doReturns := true, doStaticFunction := true }

/-- The attributes that `xml_output_function_decl` writes. -/
def functionAttributes (fd : Node) (complete : Bool) : Print Node Unit := do
  let shape := functionShape tu fd
  let type := tu.treeType fd
  xmlPrintIdAttribute fd
  Trace.when shape.doName (xmlPrintNameAttribute shape.name)
  Trace.when shape.doReturns (xmlPrintReturnsAttribute tu (tu.treeType type) complete)
  Trace.when shape.doExplicit (xmlPrintExplicitAttribute tu fd)
  Trace.when shape.doConst (xmlPrintConstMethodAttribute tu fd)
  Trace.when shape.doVirtual (xmlPrintVirtualMethodAttributes tu fd)
  Trace.when shape.doStaticMethod (xmlPrintStaticMethodAttribute tu fd)
  Trace.when shape.doStaticFunction (xmlPrintStaticAttribute tu fd)
  Trace.when shape.doArtificial (xmlPrintArtificialAttribute tu fd)
  xmlPrintThrowAttribute tu type complete
  xmlPrintContextAttribute tu fd
  xmlPrintMangledAttribute tu fd
  xmlPrintDemangledAttribute tu fd
  xmlPrintDeclLocationAttribute tu fd
  Trace.whenSome (tu.tree fd).declSavedTree xmlPrintEndlineAttribute
  xmlPrintFunctionExternAttribute tu fd
  xmlPrintInlineAttribute tu fd
  xmlPrintAttributesAttribute (tu.tree fd).declAttributes (tu.tree type).typeAttributes
  xmlPrintBefriendingAttribute tu (tu.tree fd).befriendingClasses

/-- How many arguments `xml_output_function_decl` skips: the `this` argument of a nonstatic member function. -/
def skippedArguments (fd : Node) : Nat := if (tu.tree fd).declNonstaticMemberFunctionP then 1 else 0

/-- `xml_output_function_decl`. -/
def xmlOutputFunctionDecl (fd : Node) (complete : Bool) : Print Node Unit := do
  let tag := (functionShape tu fd).tag
  let type := tu.treeType fd
  emit (.startTag 2 tag)
  functionAttributes tu fd complete
  let arg := (tu.tree fd).declArguments.drop (skippedArguments tu fd)
  let argType := (tu.tree type).typeArgTypes.drop (skippedArguments tu fd)
  if argType.isEmpty && (tu.tree type).argTypesEndVoid then emit .emptyTag
  else do
    emit .endStartTag
    xmlOutputArguments tu arg argType complete
    Trace.when (!(tu.tree type).argTypesEndVoid) xmlOutputEllipsis
    emit (.endTag 2 tag)

/-! ## Variables and fields -/

/-- The attributes that `xml_output_var_decl` writes. -/
def varDeclAttributes (vd : Node) (complete : Bool) : Print Node Unit := do
  xmlPrintIdAttribute vd
  xmlPrintNameAttribute (tu.tree vd).declName
  xmlPrintTypeAttribute tu (tu.treeType vd) complete
  xmlPrintInitAttribute (tu.tree vd).declInitial
  xmlPrintContextAttribute tu vd
  xmlPrintMangledAttribute tu vd
  xmlPrintDemangledAttribute tu vd
  xmlPrintDeclLocationAttribute tu vd
  xmlPrintStaticAttribute tu vd
  xmlPrintExternAttribute tu vd
  xmlPrintArtificialAttribute tu vd
  xmlPrintAttributesAttribute (tu.tree vd).declAttributes []

/-- `xml_output_var_decl`. -/
def xmlOutputVarDecl (vd : Node) (complete : Bool) : Print Node Unit := do
  emit (.startTag 2 "Variable")
  varDeclAttributes tu vd complete
  emit .emptyTag

/-- The attributes that `xml_output_field_decl` writes. -/
def fieldDeclAttributes (fd : Node) (complete : Bool) : Print Node Unit := do
  xmlPrintIdAttribute fd
  xmlPrintNameAttribute (tu.tree fd).declName
  xmlPrintBitsAttribute tu fd
  xmlPrintTypeAttribute tu ((tu.tree fd).declBitFieldType.getD (tu.treeType fd)) complete
  xmlPrintOffsetAttribute tu fd
  xmlPrintContextAttribute tu fd
  xmlPrintMangledAttribute tu fd
  xmlPrintDemangledAttribute tu fd
  xmlPrintMutableAttribute tu fd
  xmlPrintDeclLocationAttribute tu fd
  xmlPrintAttributesAttribute (tu.tree fd).declAttributes []

/-- `xml_output_field_decl`. -/
def xmlOutputFieldDecl (fd : Node) (complete : Bool) : Print Node Unit := do
  emit (.startTag 2 "Field")
  fieldDeclAttributes tu fd complete
  emit .emptyTag

/-! ## Classes -/

/-- The tag of `xml_output_record_type`. -/
def recordTag (rt : Node) : String :=
  if tu.treeCode rt = .recordType then
    if (tu.tree rt).classtypeDeclaredClass then "Class" else "Struct"
  else "Union"

/-- The fields that `xml_output_record_type` lists: no compiler-generated field, and not the member typedef of
    the class to itself. -/
def listedFields (rt : Node) : List Node :=
  (tu.tree rt).typeFields.filter fun field =>
    !((tu.tree field).declArtificial && !(tu.tree field).declImplicitTypedefP) &&
      !(tu.treeCode field = .typeDecl && (tu.tree field).treeType = some rt)

/-- The methods that `xml_output_record_type` lists: of the compiler-generated functions only constructors,
    destructors and assignment operators, and no clones. -/
def listedMethods (rt : Node) : List Node :=
  (tu.tree rt).typeMethods.filter fun func =>
    !((tu.tree func).declArtificial && !(tu.tree func).declConstructorP && !(tu.tree func).declDestructorP &&
        !(tu.tree func).declAssignmentOperatorP) &&
      !(tu.tree func).declClonedFunctionP

/-- The `members` attribute of a class. -/
def xmlPrintRecordMembers (rt : Node) : Print Node Unit := do
  let fields ← Trace.collect (listedFields tu rt) (listMember tu)
  let methods ← Trace.collect (listedMethods tu rt) (listMember tu)
  writeAttr "members" (fields.flatten ++ methods.flatten)

/-- The `access` text before a reference in the `bases` attribute. -/
def Access.mark : Access → List (SymPiece Node)
  | .isPublic => []
  | .isProtected => [.str "protected:"]
  | .isPrivate => [.str "private:"]

def Access.text : Access → String
  | .isPublic => "public"
  | .isProtected => "protected"
  | .isPrivate => "private"

/-- The `bases` attribute of a class. -/
def xmlPrintBasesAttribute (bases : List (BaseBinfo Node)) : Print Node Unit := do
  let refs ← Trace.collect bases fun base => do
    let id ← addNode tu base.type true
    pure (base.access.mark ++ [.id id, .str " "])
  writeAttr "bases" refs.flatten

/-- The attributes of a `Base` element that refers to `id`. -/
def baseAttributes (base : BaseBinfo Node) (id : Option Node) : Print Node Unit := do
  writeAttr "type" [.id id]
  writeAttr "access" [.str base.access.text]
  writeAttr "virtual" [.num (if base.isVirtual then 1 else 0)]
  writeAttr "offset" [.num (asInt base.offset.low)]

/-- One `Base` element of a class. -/
def xmlOutputBase (base : BaseBinfo Node) : Print Node Unit := do
  let id ← addNode tu base.type true
  emit (.startTag 4 "Base")
  baseAttributes base id
  emit .emptyTag

/-- The bases that `xml_output_record_type` prints. -/
def printedBases (rt : Node) (complete : Bool) : Option (List (BaseBinfo Node)) :=
  if complete && (tu.tree rt).completeTypeP then (tu.tree rt).typeBinfo else none

/-- The attributes that `xml_output_record_type` writes. -/
def recordAttributes (rt : Node) (complete : Bool) : Print Node Unit := do
  let decl := tu.typeNameOf rt
  xmlPrintIdAttribute rt
  Trace.when (!(tu.tree rt).typeAnonymousP) (xmlPrintNameAttribute (tu.tree decl).declName)
  xmlPrintContextAttribute tu decl
  xmlPrintAbstractAttribute tu rt
  xmlPrintIncompleteAttribute tu rt
  xmlPrintMangledAttribute tu decl
  xmlPrintDemangledAttribute tu decl
  xmlPrintDeclLocationAttribute tu decl
  xmlPrintArtificialAttribute tu decl
  xmlPrintAttributesAttribute (tu.tree rt).typeAttributes []
  xmlPrintSizeAttribute tu rt
  xmlPrintAlignAttribute tu rt
  xmlPrintBefriendingAttribute tu (tu.tree rt).befriendingClasses
  Trace.when (complete && (tu.tree rt).completeTypeP) (xmlPrintRecordMembers tu rt)
  Trace.whenSome (printedBases tu rt complete) (xmlPrintBasesAttribute tu)

/-- `xml_output_record_type`. -/
def xmlOutputRecordType (rt : Node) (complete : Bool) : Print Node Unit := do
  let bases := (printedBases tu rt complete).getD []
  emit (.startTag 2 (recordTag tu rt))
  recordAttributes tu rt complete
  if bases.isEmpty then emit .emptyTag
  else do
    emit .endStartTag
    Trace.each bases (xmlOutputBase tu)
    emit (.endTag 2 (recordTag tu rt))

/-! ## Other types -/

/-- The attributes that `xml_output_fundamental_type` writes. -/
def fundamentalTypeAttributes (t : Node) : Print Node Unit := do
  xmlPrintIdAttribute t
  Trace.whenSome (tu.tree t).typeName fun name => xmlPrintNameAttribute (tu.tree name).declName
  xmlPrintAttributesAttribute (tu.tree t).typeAttributes []
  xmlPrintSizeAttribute tu t
  xmlPrintAlignAttribute tu t

/-- `xml_output_fundamental_type`. -/
def xmlOutputFundamentalType (t : Node) : Print Node Unit := do
  emit (.startTag 2 "FundamentalType")
  fundamentalTypeAttributes tu t
  emit .emptyTag

/-- The attributes that `xml_output_function_type` writes. -/
def functionTypeAttributes (t : Node) (complete : Bool) : Print Node Unit := do
  xmlPrintIdAttribute t
  xmlPrintReturnsAttribute tu (tu.treeType t) complete
  xmlPrintAttributesAttribute (tu.tree t).typeAttributes []

/-- `xml_output_function_type`. -/
def xmlOutputFunctionType (t : Node) (complete : Bool) : Print Node Unit := do
  emit (.startTag 2 "FunctionType")
  functionTypeAttributes tu t complete
  emit .endStartTag
  xmlOutputArguments tu [] (tu.tree t).typeArgTypes complete
  Trace.when (!(tu.tree t).argTypesEndVoid) xmlOutputEllipsis
  emit (.endTag 2 "FunctionType")

/-- The attributes that `xml_output_method_type` writes. -/
def methodTypeAttributes (t : Node) (complete : Bool) : Print Node Unit := do
  xmlPrintIdAttribute t
  xmlPrintBaseTypeAttribute tu ((tu.tree t).typeMethodBasetype.getD t) complete
  xmlPrintReturnsAttribute tu (tu.treeType t) complete
  xmlPrintAttributesAttribute (tu.tree t).typeAttributes []
  -- the implicit argument points to a type that may be cv-qualified
  let thisType := (tu.tree t).typeArgTypes.head?.bind fun arg => (tu.tree arg.value).treeType
  flagAttribute "const" (thisType.any fun this => (tu.tree this).typeReadonly)
  flagAttribute "volatile" (thisType.any fun this => (tu.tree this).typeVolatile)

/-- `xml_output_method_type`. -/
def xmlOutputMethodType (t : Node) (complete : Bool) : Print Node Unit := do
  emit (.startTag 2 "MethodType")
  methodTypeAttributes tu t complete
  emit .endStartTag
  xmlOutputArguments tu [] ((tu.tree t).typeArgTypes.drop 1) complete
  Trace.when (!(tu.tree t).argTypesEndVoid) xmlOutputEllipsis
  emit (.endTag 2 "MethodType")

/-- The attributes that `xml_output_pointer_type` and `xml_output_reference_type` write. -/
def indirectTypeAttributes (t : Node) : Print Node Unit := do
  xmlPrintIdAttribute t
  xmlPrintTypeAttribute tu (tu.treeType t) false
  xmlPrintAttributesAttribute (tu.tree t).typeAttributes []
  xmlPrintSizeAttribute tu t
  xmlPrintAlignAttribute tu t

/-- The common body of `xml_output_pointer_type` and `xml_output_reference_type`. -/
def xmlOutputIndirectType (tag : String) (t : Node) : Print Node Unit := do
  emit (.startTag 2 tag)
  indirectTypeAttributes tu t
  emit .emptyTag

/-- `xml_output_pointer_type`. -/
def xmlOutputPointerType (t : Node) : Print Node Unit := xmlOutputIndirectType tu "PointerType" t

/-- `xml_output_reference_type`. -/
def xmlOutputReferenceType (t : Node) : Print Node Unit := xmlOutputIndirectType tu "ReferenceType" t

/-- The attributes that `xml_output_offset_type` writes. -/
def offsetTypeAttributes (t : Node) (complete : Bool) : Print Node Unit := do
  xmlPrintIdAttribute t
  xmlPrintBaseTypeAttribute tu ((tu.tree t).typeOffsetBasetype.getD t) complete
  xmlPrintTypeAttribute tu (tu.treeType t) complete
  xmlPrintAttributesAttribute (tu.tree t).typeAttributes []
  xmlPrintSizeAttribute tu t
  xmlPrintAlignAttribute tu t

/-- `xml_output_offset_type`. -/
def xmlOutputOffsetType (t : Node) (complete : Bool) : Print Node Unit := do
  emit (.startTag 2 "OffsetType")
  offsetTypeAttributes tu t complete
  emit .emptyTag

/-- The attributes that `xml_output_array_type` writes. -/
def arrayTypeAttributes (t : Node) (complete : Bool) : Print Node Unit := do
  xmlPrintIdAttribute t
  xmlPrintArrayAttributes tu t
  xmlPrintTypeAttribute tu (tu.treeType t) complete
  xmlPrintAttributesAttribute (tu.tree t).typeAttributes []
  xmlPrintSizeAttribute tu t
  xmlPrintAlignAttribute tu t

/-- `xml_output_array_type`. -/
def xmlOutputArrayType (t : Node) (complete : Bool) : Print Node Unit := do
  emit (.startTag 2 "ArrayType")
  arrayTypeAttributes tu t complete
  emit .emptyTag

/-- The attributes of an `EnumValue` element. -/
def enumValueAttributes (purpose : Option String) (value : Node) : Print Node Unit := do
  writeAttr "name" [.str (xmlGetEncodedString purpose)]
  writeAttr "init" [.num (asInt (tu.tree value).intCst.low)]

/-- One round of the loop of `xml_output_enumeral_type`. -/
def xmlOutputEnumValue (purpose : Option String) (value : Node) : Print Node Unit :=
  if tu.treeCode value = .integerCst then do
    emit (.startTag 4 "EnumValue")
    enumValueAttributes tu purpose value
    emit .emptyTag
  else do
    emit (.blanks 2)
    xmlOutputUnimplemented tu value none (some "xml_output_enumeral_type")

/-- The attributes that `xml_output_enumeral_type` writes. -/
def enumeralTypeAttributes (t : Node) : Print Node Unit := do
  let decl := tu.typeNameOf t
  xmlPrintIdAttribute t
  xmlPrintNameAttribute (tu.tree decl).declName
  xmlPrintContextAttribute tu decl
  xmlPrintDeclLocationAttribute tu decl
  xmlPrintAttributesAttribute (tu.tree t).typeAttributes []
  xmlPrintArtificialAttribute tu decl
  xmlPrintSizeAttribute tu t
  xmlPrintAlignAttribute tu t

/-- `xml_output_enumeral_type`. -/
def xmlOutputEnumeralType (t : Node) : Print Node Unit := do
  emit (.startTag 2 "Enumeration")
  enumeralTypeAttributes tu t
  emit .endStartTag
  Trace.each (tu.tree t).typeValues fun tv => xmlOutputEnumValue tu tv.1 tv.2
  emit (.endTag 2 "Enumeration")

/-- The branch of `xml_output_cv_qualified_type` for a type that is its own main variant. -/
def xmlOutputMainVariant (t : Node) (complete : Bool) : Print Node Unit :=
  match tu.treeCode t with
  | .unionType | .qualUnionType | .recordType => xmlOutputRecordType tu t complete
  | .arrayType => xmlOutputArrayType tu t complete
  | .pointerType => xmlOutputPointerType tu t
  | .referenceType => xmlOutputReferenceType tu t
  | .functionType => xmlOutputFunctionType tu t complete
  | .methodType => xmlOutputMethodType tu t complete
  | .offsetType => xmlOutputOffsetType tu t complete
  | .enumeralType => xmlOutputEnumeralType tu t
  | .langType | .integerType | .booleanType | .realType | .voidType | .complexType =>
      xmlOutputFundamentalType tu t
  | _ => pure ()

/-- The attributes of a `CvQualifiedType` element. -/
def cvQualifiedTypeAttributes (t : Node) (id : Option Node) (q : Quals) : Print Node Unit := do
  writeAttr "id" [.typeId t id q]
  writeAttr "type" [.id id]
  flagAttribute "const" q.isConst
  flagAttribute "volatile" q.isVolatile
  flagAttribute "restrict" q.isRestrict

/-- The branch of `xml_output_cv_qualified_type` for another variant: it goes by the reference that a type
    attribute would write, and prints nothing when that has no suffix. -/
def xmlOutputVariant (t : Node) (complete : Bool) : Print Node Unit := do
  let (id, q) ← xmlGetIdref tu t complete
  Trace.when (q ≠ Quals.none) do
    emit (.startTag 2 "CvQualifiedType")
    cvQualifiedTypeAttributes t id q
    emit .emptyTag

/-- `xml_output_cv_qualified_type`. -/
def xmlOutputCvQualifiedType (t : Node) (complete : Bool) : Print Node Unit :=
  if t = tu.typeMainVariant t then xmlOutputMainVariant tu t complete else xmlOutputVariant tu t complete

/-! ## The dispatch -/

/-- `xml_dump_tree_node`. -/
def xmlDumpTreeNode (n : Node) (complete : Bool) : Print Node Unit :=
  match tu.treeCode n with
  | .namespaceDecl => xmlOutputNamespaceDecl tu n complete
  | .typeDecl => xmlOutputTypedef tu n complete
  | .functionDecl => xmlOutputFunctionDecl tu n complete
  | .varDecl => xmlOutputVarDecl tu n complete
  | .fieldDecl => xmlOutputFieldDecl tu n complete
  | .unionType | .qualUnionType | .recordType | .arrayType | .pointerType | .referenceType | .functionType
  | .methodType | .offsetType | .enumeralType | .langType | .integerType | .booleanType | .realType
  | .voidType | .complexType => xmlOutputCvQualifiedType tu n complete
  | _ => xmlOutputUnimplemented tu n (some n) none

end

end GccXml
