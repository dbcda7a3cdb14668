import GccXml.Xml.Requests

namespace GccXml

/-! # `Xml.Elements` — the element that printing a node writes

`xml_dump_tree_node` writes at most one element, with the children of its kind inside. `nodeEntry` says which, and
`fragsOf_xmlDumpTreeNode` that nothing else is written.

A document is a flat list of fragments: the start of a tag, an attribute, the end of a start tag, an end tag. Elements
are read out of it with their attributes, and children with their parent. An entry is the structured form for one node:
an element with its attributes, a list of children if it has any, or the decision to close the tag at once. Its
fragments are computed from it, so an equation between the fragments of a printing function and those of an entry says
that the function writes this entry and nothing else.

`nodeEntry` follows the switch of `xml_dump_tree_node` with one case for each tree code. A case only names the tag, the
block of attributes and the children; whatever else a later module needs to know of an element is a fact about these. -/

section
variable {Node ι φ : Type}

/-! ## Elements of a document -/

/-- An element: its tag and its attributes in order. -/
structure Element (Node ι φ : Type) where
  tag : String
  attrs : List (String × List (Piece Node ι φ))

/-- The attributes at the front of a list of fragments. -/
def leadingAttrs : List (Frag Node ι φ) → List (String × List (Piece Node ι φ))
  | .attr name value :: rest => (name, value) :: leadingAttrs rest
  | _ => []

/-- **The elements of a document**, in the order of their start tags. -/
def elements : List (Frag Node ι φ) → List (Element Node ι φ)
  | [] => []
  | .startTag _ tag :: rest => ⟨tag, leadingAttrs rest⟩ :: elements rest
  | _ :: rest => elements rest

/-- A child of an entry: an element without content, and the blanks printed before it. -/
structure Child (Node ι φ : Type) where
  blanks : Option Nat := none
  indent : Nat
  element : Element Node ι φ

/-- What one call of `xml_dump_tree_node` writes: an element, and its children unless it is closed at once. -/
structure Entry (Node ι φ : Type) where
  element : Element Node ι φ
  children : Option (List (Child Node ι φ)) := none

/-- The fragments of a start tag up to its closing bracket. -/
def Element.openFrags (e : Element Node ι φ) (indent : Nat) : List (Frag Node ι φ) :=
  .startTag indent e.tag :: e.attrs.map Frag.ofAttr

def Child.frags (c : Child Node ι φ) : List (Frag Node ι φ) :=
  (c.blanks.toList.map .blanks) ++ c.element.openFrags c.indent ++ [.emptyTag]

def Entry.frags (e : Entry Node ι φ) : List (Frag Node ι φ) :=
  e.element.openFrags 2 ++
    match e.children with
    | none => [.emptyTag]
    | some children => .endStartTag :: children.flatMap Child.frags ++ [.endTag 2 e.element.tag]

/-- The elements of an entry. -/
def Entry.elements (e : Entry Node ι φ) : List (Element Node ι φ) :=
  e.element :: (e.children.getD []).map Child.element

theorem leadingAttrs_ofAttr (attrs : List (String × List (Piece Node ι φ))) {rest : List (Frag Node ι φ)}
    (h : leadingAttrs rest = []) : leadingAttrs (attrs.map Frag.ofAttr ++ rest) = attrs := by
  induction attrs with
  | nil => exact h
  | cons a attrs ih => exact congrArg (a :: ·) ih

theorem elements_ofAttr (attrs : List (String × List (Piece Node ι φ))) (rest : List (Frag Node ι φ)) :
    elements (attrs.map Frag.ofAttr ++ rest) = elements rest := by
  induction attrs with
  | nil => rfl
  | cons a attrs ih => exact ih

theorem elements_openFrags (e : Element Node ι φ) (indent : Nat) {rest : List (Frag Node ι φ)}
    (h : leadingAttrs rest = []) : elements (e.openFrags indent ++ rest) = e :: elements rest := by
  show (⟨e.tag, leadingAttrs (e.attrs.map Frag.ofAttr ++ rest)⟩ : Element Node ι φ) ::
    elements (e.attrs.map Frag.ofAttr ++ rest) = e :: elements rest
  rw [leadingAttrs_ofAttr e.attrs h, elements_ofAttr]

theorem elements_child (c : Child Node ι φ) (rest : List (Frag Node ι φ)) :
    elements (c.frags ++ rest) = c.element :: elements rest := by
  have htag : elements (c.element.openFrags c.indent ++ .emptyTag :: rest) = c.element :: elements rest :=
    elements_openFrags c.element c.indent rfl
  unfold Child.frags
  cases c.blanks with
  | none => simpa using htag
  | some count => simpa [elements] using htag

theorem elements_children (children : List (Child Node ι φ)) (rest : List (Frag Node ι φ)) :
    elements (children.flatMap Child.frags ++ rest) = children.map Child.element ++ elements rest := by
  induction children with
  | nil => rfl
  | cons c children ih =>
      rw [List.flatMap_cons, List.append_assoc, elements_child, ih]
      rfl

/-- The elements of an entry are those it was built from. -/
theorem elements_entry (e : Entry Node ι φ) (rest : List (Frag Node ι φ)) :
    elements (e.frags ++ rest) = e.elements ++ elements rest := by
  unfold Entry.frags Entry.elements
  cases e.children with
  | none =>
      have hopen : elements (e.element.openFrags 2 ++ .emptyTag :: rest) = e.element :: elements rest :=
        elements_openFrags e.element 2 rfl
      simpa using hopen
  | some children =>
      have hchildren := elements_children children (.endTag 2 e.element.tag :: rest)
      simp only [List.append_assoc, List.cons_append, List.nil_append, Option.getD_some]
      rw [elements_openFrags e.element 2 rfl]
      simpa [elements] using hchildren

/-- Two lists of entries give the elements of the one and then those of the other. -/
theorem elements_entries (es : List (Entry Node ι φ)) (rest : List (Frag Node ι φ)) :
    elements (es.flatMap Entry.frags ++ rest) = es.flatMap Entry.elements ++ elements rest := by
  induction es with
  | nil => rfl
  | cons e es ih => rw [List.flatMap_cons, List.append_assoc, elements_entry, ih, List.flatMap_cons, List.append_assoc]

end

/-! ## The attribute blocks -/

section
variable {Node : Type} [DecidableEq Node] (tu : TranslationUnit Node)

theorem namespaceAttributes_block (ns : Node) (c : Bool) :
    AttrBlock ["id", "name", "context", "access", "attributes", "members", "mangled", "demangled"]
      (namespaceAttributes tu ns c) :=
  .seq (xmlPrintIdAttribute_block ns) <| .seq (.when (xmlPrintNameAttribute_block _)) <|
    .seq (xmlPrintContextAttribute_block tu ns) <| .seq (xmlPrintAttributesAttribute_block _ _) <|
    .seq (.when (xmlPrintNamespaceMembers_block tu ns)) <| .seq (xmlPrintMangledAttribute_block tu ns) <|
    xmlPrintDemangledAttribute_block tu ns

theorem namespaceAliasAttributes_block (ns : Node) :
    AttrBlock ["id", "name", "context", "access", "namespace", "mangled", "demangled"]
      (namespaceAliasAttributes tu ns) :=
  .seq (xmlPrintIdAttribute_block ns) <| .seq (xmlPrintNameAttribute_block _) <|
    .seq (xmlPrintContextAttribute_block tu ns) <| .bind rfl <| .seq (.single "namespace" _) <|
    .seq (xmlPrintMangledAttribute_block tu ns) <| xmlPrintDemangledAttribute_block tu ns

theorem typedefAttributes_block (td : Node) (c : Bool) :
    AttrBlock ["id", "name", "type", "context", "access", "location", "file", "line", "attributes"]
      (typedefAttributes tu td c) :=
  .seq (xmlPrintIdAttribute_block td) <| .seq (xmlPrintNameAttribute_block _) <|
    .seq (xmlPrintTypeAttribute_block tu _ c) <| .seq (xmlPrintContextAttribute_block tu td) <|
    .seq (xmlPrintDeclLocationAttribute_block tu td) <| xmlPrintAttributesAttribute_block _ _

theorem argumentAttributes_block (pd : Option (ParmDecl Node)) (tl : ArgType Node) (c : Bool) :
    AttrBlock ["name", "type", "location", "file", "line", "default", "attributes"]
      (argumentAttributes tu pd tl c) :=
  .seq (.whenSome fun _ => xmlPrintNameAttribute_block _) <| .seq (xmlPrintTypeAttribute_block tu _ c) <|
    .seq (.whenSome fun _ => xmlPrintLocationAttribute_block _ _) <|
    .seq (.whenSome fun _ => xmlPrintDefaultArgumentAttribute_block _) <|
    .whenSome fun _ => xmlPrintAttributesAttribute_block _ _

omit [DecidableEq Node] in
/-- A function is printed with the `static` attribute of a method or with that of a function, not with both. -/
theorem functionShape_static (fd : Node) :
    ¬ ((functionShape tu fd).doStaticMethod = true ∧ (functionShape tu fd).doStaticFunction = true) := by
  unfold functionShape
  dsimp only
  split_ifs <;> simp

theorem functionAttributes_block (fd : Node) (c : Bool) :
    AttrBlock ["id", "name", "returns", "explicit", "const", "virtual", "pure_virtual", "overrides", "static",
      "artificial", "throw", "context", "access", "mangled", "demangled", "location", "file", "line", "endline",
      "extern", "inline", "attributes", "befriending"] (functionAttributes tu fd c) :=
  .seq (xmlPrintIdAttribute_block fd) <| .seq (.when (xmlPrintNameAttribute_block _)) <|
    .seq (.when (xmlPrintReturnsAttribute_block tu _ c)) <| .seq (.when (flagAttribute_block "explicit" _)) <|
    .seq (.when (flagAttribute_block "const" _)) <| .seq (.when (xmlPrintVirtualMethodAttributes_block tu fd)) <|
    .either (functionShape_static tu fd) (flagAttribute_block "static" _) (flagAttribute_block "static" _) <|
    .seq (.when (flagAttribute_block "artificial" _)) <| .seq (xmlPrintThrowAttribute_block tu _ c) <|
    .seq (xmlPrintContextAttribute_block tu fd) <| .seq (xmlPrintMangledAttribute_block tu fd) <|
    .seq (xmlPrintDemangledAttribute_block tu fd) <| .seq (xmlPrintDeclLocationAttribute_block tu fd) <|
    .seq (.whenSome fun _ => xmlPrintEndlineAttribute_block _) <| .seq (flagAttribute_block "extern" _) <|
    .seq (flagAttribute_block "inline" _) <| .seq (xmlPrintAttributesAttribute_block _ _) <|
    xmlPrintBefriendingAttribute_block tu _

theorem varDeclAttributes_block (vd : Node) (c : Bool) :
    AttrBlock ["id", "name", "type", "init", "context", "access", "mangled", "demangled", "location", "file",
      "line", "static", "extern", "artificial", "attributes"] (varDeclAttributes tu vd c) :=
  .seq (xmlPrintIdAttribute_block vd) <| .seq (xmlPrintNameAttribute_block _) <|
    .seq (xmlPrintTypeAttribute_block tu _ c) <| .seq (xmlPrintInitAttribute_block _) <|
    .seq (xmlPrintContextAttribute_block tu vd) <| .seq (xmlPrintMangledAttribute_block tu vd) <|
    .seq (xmlPrintDemangledAttribute_block tu vd) <| .seq (xmlPrintDeclLocationAttribute_block tu vd) <|
    .seq (flagAttribute_block "static" _) <| .seq (flagAttribute_block "extern" _) <|
    .seq (flagAttribute_block "artificial" _) <| xmlPrintAttributesAttribute_block _ _

theorem fieldDeclAttributes_block (fd : Node) (c : Bool) :
    AttrBlock ["id", "name", "bits", "type", "offset", "context", "access", "mangled", "demangled", "mutable",
      "location", "file", "line", "attributes"] (fieldDeclAttributes tu fd c) :=
  .seq (xmlPrintIdAttribute_block fd) <| .seq (xmlPrintNameAttribute_block _) <|
    .seq (xmlPrintBitsAttribute_block tu fd) <| .seq (xmlPrintTypeAttribute_block tu _ c) <|
    .seq (xmlPrintOffsetAttribute_block tu fd) <| .seq (xmlPrintContextAttribute_block tu fd) <|
    .seq (xmlPrintMangledAttribute_block tu fd) <| .seq (xmlPrintDemangledAttribute_block tu fd) <|
    .seq (flagAttribute_block "mutable" _) <| .seq (xmlPrintDeclLocationAttribute_block tu fd) <|
    xmlPrintAttributesAttribute_block _ _

omit [DecidableEq Node] in
theorem baseAttributes_block (base : BaseBinfo Node) (id : Option Node) :
    AttrBlock ["type", "access", "virtual", "offset"] (baseAttributes base id) :=
  .seq (.single "type" _) <| .seq (.single "access" _) <| .seq (.single "virtual" _) <| .single "offset" _

theorem recordAttributes_block (rt : Node) (c : Bool) :
    AttrBlock ["id", "name", "context", "access", "abstract", "incomplete", "mangled", "demangled", "location",
      "file", "line", "artificial", "attributes", "size", "align", "befriending", "members", "bases"]
      (recordAttributes tu rt c) :=
  .seq (xmlPrintIdAttribute_block rt) <| .seq (.when (xmlPrintNameAttribute_block _)) <|
    .seq (xmlPrintContextAttribute_block tu _) <| .seq (flagAttribute_block "abstract" _) <|
    .seq (flagAttribute_block "incomplete" _) <| .seq (xmlPrintMangledAttribute_block tu _) <|
    .seq (xmlPrintDemangledAttribute_block tu _) <| .seq (xmlPrintDeclLocationAttribute_block tu _) <|
    .seq (flagAttribute_block "artificial" _) <| .seq (xmlPrintAttributesAttribute_block _ _) <|
    .seq (constantAttribute_block "size" _) <| .seq (.single "align" _) <|
    .seq (xmlPrintBefriendingAttribute_block tu _) <| .seq (.when (xmlPrintRecordMembers_block tu rt)) <|
    .whenSome fun _ => xmlPrintBasesAttribute_block tu _

omit [DecidableEq Node] in
theorem fundamentalTypeAttributes_block (t : Node) :
    AttrBlock ["id", "name", "attributes", "size", "align"] (fundamentalTypeAttributes tu t) :=
  .seq (xmlPrintIdAttribute_block t) <| .seq (.whenSome fun _ => xmlPrintNameAttribute_block _) <|
    .seq (xmlPrintAttributesAttribute_block _ _) <| .seq (constantAttribute_block "size" _) <| .single "align" _

theorem functionTypeAttributes_block (t : Node) (c : Bool) :
    AttrBlock ["id", "returns", "attributes"] (functionTypeAttributes tu t c) :=
  .seq (xmlPrintIdAttribute_block t) <| .seq (xmlPrintReturnsAttribute_block tu _ c) <|
    xmlPrintAttributesAttribute_block _ _

theorem methodTypeAttributes_block (t : Node) (c : Bool) :
    AttrBlock ["id", "basetype", "returns", "attributes", "const", "volatile"] (methodTypeAttributes tu t c) :=
  .seq (xmlPrintIdAttribute_block t) <| .seq (xmlPrintBaseTypeAttribute_block tu _ c) <|
    .seq (xmlPrintReturnsAttribute_block tu _ c) <| .seq (xmlPrintAttributesAttribute_block _ _) <|
    .seq (flagAttribute_block "const" _) <| flagAttribute_block "volatile" _

theorem indirectTypeAttributes_block (t : Node) :
    AttrBlock ["id", "type", "attributes", "size", "align"] (indirectTypeAttributes tu t) :=
  .seq (xmlPrintIdAttribute_block t) <| .seq (xmlPrintTypeAttribute_block tu _ false) <|
    .seq (xmlPrintAttributesAttribute_block _ _) <| .seq (constantAttribute_block "size" _) <| .single "align" _

theorem offsetTypeAttributes_block (t : Node) (c : Bool) :
    AttrBlock ["id", "basetype", "type", "attributes", "size", "align"] (offsetTypeAttributes tu t c) :=
  .seq (xmlPrintIdAttribute_block t) <| .seq (xmlPrintBaseTypeAttribute_block tu _ c) <|
    .seq (xmlPrintTypeAttribute_block tu _ c) <| .seq (xmlPrintAttributesAttribute_block _ _) <|
    .seq (constantAttribute_block "size" _) <| .single "align" _

theorem arrayTypeAttributes_block (t : Node) (c : Bool) :
    AttrBlock ["id", "min", "max", "type", "attributes", "size", "align"] (arrayTypeAttributes tu t c) :=
  .seq (xmlPrintIdAttribute_block t) <| .seq (xmlPrintArrayAttributes_block tu t) <|
    .seq (xmlPrintTypeAttribute_block tu _ c) <| .seq (xmlPrintAttributesAttribute_block _ _) <|
    .seq (constantAttribute_block "size" _) <| .single "align" _

omit [DecidableEq Node] in
theorem enumValueAttributes_block (purpose : Option String) (value : Node) :
    AttrBlock ["name", "init"] (enumValueAttributes tu purpose value) := .seq (.single "name" _) (.single "init" _)

theorem enumeralTypeAttributes_block (t : Node) :
    AttrBlock ["id", "name", "context", "access", "location", "file", "line", "attributes", "artificial", "size",
      "align"] (enumeralTypeAttributes tu t) :=
  .seq (xmlPrintIdAttribute_block t) <| .seq (xmlPrintNameAttribute_block _) <|
    .seq (xmlPrintContextAttribute_block tu _) <| .seq (xmlPrintDeclLocationAttribute_block tu _) <|
    .seq (xmlPrintAttributesAttribute_block _ _) <| .seq (flagAttribute_block "artificial" _) <|
    .seq (constantAttribute_block "size" _) <| .single "align" _

omit [DecidableEq Node] in
theorem cvQualifiedTypeAttributes_block (t : Node) (id : Option Node) (q : Quals) :
    AttrBlock ["id", "type", "const", "volatile", "restrict"] (cvQualifiedTypeAttributes t id q) :=
  .seq (.single "id" _) <| .seq (.single "type" _) <| .seq (flagAttribute_block "const" _) <|
    .seq (flagAttribute_block "volatile" _) <| flagAttribute_block "restrict" _

omit [DecidableEq Node] in
theorem unimplementedAttributes_block (t : Node) (dn : Option Node) (function : Option String) :
    AttrBlock ["id", "tree_code", "tree_code_name", "node", "function"]
      (unimplementedAttributes tu t dn function) :=
  .seq (.whenSome fun n => xmlPrintIdAttribute_block n) <| .seq (.single "tree_code" _) <|
    .seq (.single "tree_code_name" _) <| .seq (.single "node" _) <| .whenSome fun _ => .single "function" _

/-! ## The entry of a node -/

/-- The symbolic form of an element, a child or an entry, before the indices are filled in. -/
abbrev SymElement (Node : Type) := Element Node (Option Node) String

@[inherit_doc SymElement] abbrev SymChild (Node : Type) := Child Node (Option Node) String

@[inherit_doc SymElement] abbrev SymEntry (Node : Type) := Entry Node (Option Node) String

/-- The `Argument` child for an argument. -/
def argumentChild (c : Bool) (arg : Option (ParmDecl Node) × ArgType Node) : SymChild Node :=
  { indent := 4, element := ⟨"Argument", attrsOf (argumentAttributes tu arg.1 arg.2 c)⟩ }

/-- The `Ellipsis` child of a function type that does not end with `void`. -/
def ellipsisChild (endVoid : Bool) : List (SymChild Node) :=
  if endVoid then [] else [{ indent := 4, element := ⟨"Ellipsis", []⟩ }]

/-- The children of a function type with the arguments `args`. -/
def argumentChildren (c : Bool) (args : List (Option (ParmDecl Node) × ArgType Node)) (endVoid : Bool) :
    List (SymChild Node) :=
  args.map (argumentChild tu c) ++ ellipsisChild endVoid

/-- The children of a function, if its element is not closed at once. -/
def functionChildren (fd : Node) (c : Bool) : Option (List (SymChild Node)) :=
  let type := tu.treeType fd
  if ((tu.tree type).typeArgTypes.drop (skippedArguments tu fd)).isEmpty && (tu.tree type).argTypesEndVoid then none
  else some (argumentChildren tu c (functionArguments tu fd) (tu.tree type).argTypesEndVoid)

/-- The `Base` child for a base class. -/
def baseChild (base : BaseBinfo Node) : SymChild Node :=
  { indent := 4, element := ⟨"Base", attrsOf (baseAttributes base (answer tu base.type))⟩ }

/-- The children of a class, if its element is not closed at once. -/
def recordChildren (rt : Node) (c : Bool) : Option (List (SymChild Node)) :=
  let bases := (printedBases tu rt c).getD []
  if bases.isEmpty then none else some (bases.map (baseChild tu))

/-- The child for an enumerator. -/
def enumValueChild (tv : Option String × Node) : SymChild Node :=
  if tu.treeCode tv.2 = .integerCst then
    { indent := 4, element := ⟨"EnumValue", attrsOf (enumValueAttributes tu tv.1 tv.2)⟩ }
  else
    { blanks := some 2, indent := 2
      element := ⟨"Unimplemented", attrsOf (unimplementedAttributes tu tv.2 none (some "xml_output_enumeral_type"))⟩ }

/-- The entry of a type that is its own main variant, for the codes that have one. -/
def mainVariantEntry (t : Node) (c : Bool) : Option (SymEntry Node) :=
  match tu.treeCode t with
  | .unionType | .qualUnionType | .recordType =>
      some ⟨⟨recordTag tu t, attrsOf (recordAttributes tu t c)⟩, recordChildren tu t c⟩
  | .arrayType => some ⟨⟨"ArrayType", attrsOf (arrayTypeAttributes tu t c)⟩, none⟩
  | .pointerType => some ⟨⟨"PointerType", attrsOf (indirectTypeAttributes tu t)⟩, none⟩
  | .referenceType => some ⟨⟨"ReferenceType", attrsOf (indirectTypeAttributes tu t)⟩, none⟩
  | .functionType =>
      some ⟨⟨"FunctionType", attrsOf (functionTypeAttributes tu t c)⟩,
        some (argumentChildren tu c (printedArguments [] (tu.tree t).typeArgTypes) (tu.tree t).argTypesEndVoid)⟩
  | .methodType =>
      some ⟨⟨"MethodType", attrsOf (methodTypeAttributes tu t c)⟩,
        some (argumentChildren tu c (printedArguments [] ((tu.tree t).typeArgTypes.drop 1))
          (tu.tree t).argTypesEndVoid)⟩
  | .offsetType => some ⟨⟨"OffsetType", attrsOf (offsetTypeAttributes tu t c)⟩, none⟩
  | .enumeralType =>
      some ⟨⟨"Enumeration", attrsOf (enumeralTypeAttributes tu t)⟩,
        some ((tu.tree t).typeValues.map (enumValueChild tu))⟩
  | .langType | .integerType | .booleanType | .realType | .voidType | .complexType =>
      some ⟨⟨"FundamentalType", attrsOf (fundamentalTypeAttributes tu t)⟩, none⟩
  | _ => none

/-- The entry of another variant, which has one only when the reference to it has a suffix. -/
def variantEntry (t : Node) : Option (SymEntry Node) :=
  if idrefSuffix tu t ≠ Quals.none then
    some ⟨⟨"CvQualifiedType", attrsOf (cvQualifiedTypeAttributes t (idrefBase tu t) (idrefSuffix tu t))⟩, none⟩
  else none

/-- **The entry of a node**: what `xml_dump_tree_node` writes for `n` when its flag is `c`. -/
def nodeEntry (n : Node) (c : Bool) : Option (SymEntry Node) :=
  match tu.treeCode n with
  | .namespaceDecl =>
      some <| if (tu.tree n).declNamespaceAlias = none then ⟨⟨"Namespace", attrsOf (namespaceAttributes tu n c)⟩, none⟩
        else ⟨⟨"NamespaceAlias", attrsOf (namespaceAliasAttributes tu n)⟩, none⟩
  | .typeDecl => some ⟨⟨"Typedef", attrsOf (typedefAttributes tu n c)⟩, none⟩
  | .functionDecl =>
      some ⟨⟨(functionShape tu n).tag, attrsOf (functionAttributes tu n c)⟩, functionChildren tu n c⟩
  | .varDecl => some ⟨⟨"Variable", attrsOf (varDeclAttributes tu n c)⟩, none⟩
  | .fieldDecl => some ⟨⟨"Field", attrsOf (fieldDeclAttributes tu n c)⟩, none⟩
  | .unionType | .qualUnionType | .recordType | .arrayType | .pointerType | .referenceType | .functionType
  | .methodType | .offsetType | .enumeralType | .langType | .integerType | .booleanType | .realType
  | .voidType | .complexType =>
      if n = tu.typeMainVariant n then mainVariantEntry tu n c else variantEntry tu n
  | _ => some ⟨⟨"Unimplemented", attrsOf (unimplementedAttributes tu n (some n) none)⟩, none⟩

/-! ## Nothing else is written -/

/-- The fragments of an entry that may be missing. -/
def entryFrags {ι φ : Type} (e : Option (Entry Node ι φ)) : List (Frag Node ι φ) := e.toList.flatMap Entry.frags

omit [DecidableEq Node] in
@[simp] theorem entryFrags_some {ι φ : Type} (e : Entry Node ι φ) : entryFrags (some e) = e.frags := by
  simp [entryFrags]

omit [DecidableEq Node] in
@[simp] theorem entryFrags_none {ι φ : Type} : entryFrags (none : Option (Entry Node ι φ)) = [] := rfl

omit [DecidableEq Node] in
/-- An element that is closed at once. -/
theorem fragsOf_empty {names : List String} {p : Print Node Unit} (hp : AttrBlock names p) (tag : String) :
    fragsOf (do emit (.startTag 2 tag); p; emit .emptyTag) = Entry.frags ⟨⟨tag, attrsOf p⟩, none⟩ := by
  simp [Entry.frags, Element.openFrags, hp.frags]

omit [DecidableEq Node] in
/-- An element with children. -/
theorem fragsOf_nested {names : List String} {p q : Print Node Unit} {children : List (SymChild Node)}
    (hp : AttrBlock names p) (tag : String) (hq : fragsOf q = children.flatMap Child.frags) :
    fragsOf (do emit (.startTag 2 tag); p; emit .endStartTag; q; emit (.endTag 2 tag)) =
      Entry.frags ⟨⟨tag, attrsOf p⟩, some children⟩ := by
  simp [Entry.frags, Element.openFrags, hp.frags, hq]

omit [DecidableEq Node] in
/-- A child. -/
theorem fragsOf_child {names : List String} {p : Print Node Unit} (hp : AttrBlock names p) (indent : Nat)
    (tag : String) :
    fragsOf (do emit (.startTag indent tag); p; emit .emptyTag) =
      Child.frags { indent := indent, element := ⟨tag, attrsOf p⟩ } := by
  simp [Child.frags, Element.openFrags, hp.frags]

theorem fragsOf_xmlOutputArgument (pd : Option (ParmDecl Node)) (tl : ArgType Node) (c : Bool) :
    fragsOf (xmlOutputArgument tu pd tl c) =
      if pd.any (·.declArtificial) then [] else (argumentChild tu c (pd, tl)).frags := by
  unfold xmlOutputArgument
  rw [fragsOf_when, fragsOf_child (argumentAttributes_block tu pd tl c)]
  cases pd.any (·.declArtificial) <;> rfl

theorem fragsOf_xmlOutputArguments (pds : List (ParmDecl Node)) (tls : List (ArgType Node)) (c : Bool) :
    fragsOf (xmlOutputArguments tu pds tls c) =
      ((printedArguments pds tls).map (argumentChild tu c)).flatMap Child.frags := by
  induction tls generalizing pds with
  | nil => cases pds <;> rfl
  | cons tl tls ih =>
      cases pds with
      | nil =>
          rw [xmlOutputArguments, fragsOf_bind, ih, fragsOf_xmlOutputArgument]
          rfl
      | cons pd pds =>
          rw [xmlOutputArguments, fragsOf_bind, ih, fragsOf_xmlOutputArgument, printedArguments]
          cases h : pd.declArtificial <;> simp [h]

omit [DecidableEq Node] in
theorem fragsOf_xmlOutputEllipsis (endVoid : Bool) :
    fragsOf (Trace.when (!endVoid) (xmlOutputEllipsis : Print Node Unit)) =
      (ellipsisChild endVoid : List (SymChild Node)).flatMap Child.frags := by
  cases endVoid <;> rfl

/-- The loop over the arguments and the ellipsis after it. -/
theorem fragsOf_argumentList (pds : List (ParmDecl Node)) (tls : List (ArgType Node)) (c endVoid : Bool) :
    fragsOf (do xmlOutputArguments tu pds tls c; Trace.when (!endVoid) xmlOutputEllipsis) =
      (argumentChildren tu c (printedArguments pds tls) endVoid).flatMap Child.frags := by
  rw [fragsOf_bind, fragsOf_xmlOutputArguments, fragsOf_xmlOutputEllipsis, argumentChildren, List.flatMap_append]

theorem fragsOf_xmlOutputFunctionDecl (n : Node) (c : Bool) :
    fragsOf (xmlOutputFunctionDecl tu n c) =
      Entry.frags ⟨⟨(functionShape tu n).tag, attrsOf (functionAttributes tu n c)⟩, functionChildren tu n c⟩ := by
  have hblock := functionAttributes_block tu n c
  unfold xmlOutputFunctionDecl functionChildren
  dsimp only
  split
  · exact fragsOf_empty hblock _
  · rw [functionArguments, ← fragsOf_nested hblock _ (fragsOf_argumentList tu _ _ c _)]
    simp

theorem fragsOf_xmlOutputRecordType (n : Node) (c : Bool) :
    fragsOf (xmlOutputRecordType tu n c) =
      Entry.frags ⟨⟨recordTag tu n, attrsOf (recordAttributes tu n c)⟩, recordChildren tu n c⟩ := by
  have hblock := recordAttributes_block tu n c
  have hbase : ∀ base, fragsOf (xmlOutputBase tu base) = (baseChild tu base).frags := by
    intro base
    unfold xmlOutputBase
    rw [fragsOf_bind, fragsOf_addNode, value_addNode]
    exact fragsOf_child (baseAttributes_block base _) 4 "Base"
  unfold xmlOutputRecordType recordChildren
  dsimp only
  split
  · exact fragsOf_empty hblock _
  · refine fragsOf_nested hblock _ ?_
    rw [fragsOf_each, List.flatMap_map]
    simp only [hbase]

theorem fragsOf_xmlOutputFunctionType (n : Node) (c : Bool) :
    fragsOf (xmlOutputFunctionType tu n c) = Entry.frags ⟨⟨"FunctionType", attrsOf (functionTypeAttributes tu n c)⟩,
      some (argumentChildren tu c (printedArguments [] (tu.tree n).typeArgTypes) (tu.tree n).argTypesEndVoid)⟩ := by
  have hblock := functionTypeAttributes_block tu n c
  rw [← fragsOf_nested hblock _ (fragsOf_argumentList tu _ _ c _)]
  simp [xmlOutputFunctionType]

theorem fragsOf_xmlOutputMethodType (n : Node) (c : Bool) :
    fragsOf (xmlOutputMethodType tu n c) = Entry.frags ⟨⟨"MethodType", attrsOf (methodTypeAttributes tu n c)⟩,
      some (argumentChildren tu c (printedArguments [] ((tu.tree n).typeArgTypes.drop 1))
        (tu.tree n).argTypesEndVoid)⟩ := by
  have hblock := methodTypeAttributes_block tu n c
  rw [← fragsOf_nested hblock _ (fragsOf_argumentList tu _ _ c _)]
  simp [xmlOutputMethodType]

omit [DecidableEq Node] in
theorem fragsOf_xmlOutputEnumValue (tv : Option String × Node) :
    fragsOf (xmlOutputEnumValue tu tv.1 tv.2) = (enumValueChild tu tv).frags := by
  unfold xmlOutputEnumValue enumValueChild
  split
  · exact fragsOf_child (enumValueAttributes_block tu tv.1 tv.2) 4 "EnumValue"
  · have hblock := unimplementedAttributes_block tu tv.2 none (some "xml_output_enumeral_type")
    have hchild := fragsOf_child hblock 2 "Unimplemented"
    have hblanks : ∀ e : SymElement Node, Child.frags { blanks := some 2, indent := 2, element := e } =
        .blanks 2 :: Child.frags { indent := 2, element := e } := fun _ => rfl
    rw [hblanks, ← hchild]
    rfl

theorem fragsOf_xmlOutputEnumeralType (n : Node) :
    fragsOf (xmlOutputEnumeralType tu n) = Entry.frags ⟨⟨"Enumeration", attrsOf (enumeralTypeAttributes tu n)⟩,
      some ((tu.tree n).typeValues.map (enumValueChild tu))⟩ := by
  refine fragsOf_nested (enumeralTypeAttributes_block tu n) _ ?_
  rw [fragsOf_each, List.flatMap_map]
  simp only [fragsOf_xmlOutputEnumValue]

theorem fragsOf_xmlOutputMainVariant (n : Node) (c : Bool) :
    fragsOf (xmlOutputMainVariant tu n c) = entryFrags (mainVariantEntry tu n c) := by
  unfold xmlOutputMainVariant mainVariantEntry
  split <;> rename_i hcode <;> try simp only [hcode]
  case h_1 | h_2 | h_3 => rw [fragsOf_xmlOutputRecordType, entryFrags_some]
  case h_4 => rw [entryFrags_some]; exact fragsOf_empty (arrayTypeAttributes_block tu n c) _
  case h_5 | h_6 => rw [entryFrags_some]; exact fragsOf_empty (indirectTypeAttributes_block tu n) _
  case h_7 => rw [fragsOf_xmlOutputFunctionType, entryFrags_some]
  case h_8 => rw [fragsOf_xmlOutputMethodType, entryFrags_some]
  case h_9 => rw [entryFrags_some]; exact fragsOf_empty (offsetTypeAttributes_block tu n c) _
  case h_10 => rw [fragsOf_xmlOutputEnumeralType, entryFrags_some]
  case h_17 => rfl
  all_goals rw [entryFrags_some]; exact fragsOf_empty (fundamentalTypeAttributes_block tu n) _

theorem fragsOf_xmlOutputVariant (n : Node) (c : Bool) :
    fragsOf (xmlOutputVariant tu n c) = entryFrags (variantEntry tu n) := by
  unfold xmlOutputVariant variantEntry
  rw [fragsOf_bind, fragsOf_xmlGetIdref, value_xmlGetIdref, List.nil_append]
  dsimp only
  rw [fragsOf_when]
  split
  · rw [entryFrags_some]
    exact fragsOf_empty (cvQualifiedTypeAttributes_block n _ _) _
  · rfl

/-- **`xml_dump_tree_node` writes the entry of its node** and nothing else. -/
theorem fragsOf_xmlDumpTreeNode (n : Node) (c : Bool) :
    fragsOf (xmlDumpTreeNode tu n c) = entryFrags (nodeEntry tu n c) := by
  unfold xmlDumpTreeNode nodeEntry
  split <;> rename_i hcode <;> try simp only [hcode]
  case h_1 =>
    rw [entryFrags_some]
    unfold xmlOutputNamespaceDecl
    split
    · exact fragsOf_empty (namespaceAttributes_block tu n c) _
    · exact fragsOf_empty (namespaceAliasAttributes_block tu n) _
  case h_2 => rw [entryFrags_some]; exact fragsOf_empty (typedefAttributes_block tu n c) _
  case h_3 => rw [fragsOf_xmlOutputFunctionDecl, entryFrags_some]
  case h_4 => rw [entryFrags_some]; exact fragsOf_empty (varDeclAttributes_block tu n c) _
  case h_5 => rw [entryFrags_some]; exact fragsOf_empty (fieldDeclAttributes_block tu n c) _
  case h_22 => rw [entryFrags_some]; exact fragsOf_empty (unimplementedAttributes_block tu n (some n) none) _
  all_goals
    unfold xmlOutputCvQualifiedType
    split
    · exact fragsOf_xmlOutputMainVariant tu n c
    · exact fragsOf_xmlOutputVariant tu n c

end

end GccXml
