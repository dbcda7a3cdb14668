import GccXml.Xml.Description

namespace GccXml

/-! # `Xml.Conformance` — the document against its description

An element conforms to the description when it stands in an element that it is declared for, has only attributes that
are declared for it, and has the required ones. Whether the elements of a node do can be read off the node.

The description is data, the calls of `xml_document_add_element` and `xml_document_add_attribute`, and is searched by
the tag and the tag of the parent. Conformance is a statement about every element of a document with its parent, so the
document is first read as such a list (`placed`); an entry with children gives the element, and each child with the tag
of the element.

For one element the attribute names are computed from the printing functions (`namesOf`), and they are compared once
for each kind of element with what is declared and what is required. The lemmas `…_isDescribed` say for each kind
exactly when it conforms: a required context or mangled name has to be there, a class has to be complete, since its
flag `incomplete` is declared under the name `init`, and for a function it depends on its shape. `Described` collects
these conditions over a document. -/

open DumpInfo

/-! ## Elements in their parents -/

section
variable {Node ι φ : Type}

/-- The elements of a document, each with the tag of the element it stands in, when the elements `opened` are open. -/
def placed (opened : List String) : List (Frag Node ι φ) → List (String × Element Node ι φ)
  | [] => []
  | .startTag _ tag :: rest =>
      (opened.head?.map fun parent => (parent, ⟨tag, leadingAttrs rest⟩)).toList ++ placed (tag :: opened) rest
  | .emptyTag :: rest => placed opened.tail rest
  | .endTag _ _ :: rest => placed opened.tail rest
  | _ :: rest => placed opened rest

theorem placed_ofAttr (opened : List String) (attrs : List (String × List (Piece Node ι φ)))
    (rest : List (Frag Node ι φ)) : placed opened (attrs.map Frag.ofAttr ++ rest) = placed opened rest := by
  induction attrs with
  | nil => rfl
  | cons a attrs ih => exact ih

theorem placed_openFrags (parent : String) (opened : List String) (e : Element Node ι φ) (indent : Nat)
    {rest : List (Frag Node ι φ)} (h : leadingAttrs rest = []) :
    placed (parent :: opened) (e.openFrags indent ++ rest) = (parent, e) :: placed (e.tag :: parent :: opened) rest := by
  show (parent, (⟨e.tag, leadingAttrs (e.attrs.map Frag.ofAttr ++ rest)⟩ : Element Node ι φ)) ::
    placed (e.tag :: parent :: opened) (e.attrs.map Frag.ofAttr ++ rest) = _
  rw [leadingAttrs_ofAttr e.attrs h, placed_ofAttr]

theorem placed_child (parent : String) (opened : List String) (c : Child Node ι φ) (rest : List (Frag Node ι φ)) :
    placed (parent :: opened) (c.frags ++ rest) = (parent, c.element) :: placed (parent :: opened) rest := by
  have htag : placed (parent :: opened) (c.element.openFrags c.indent ++ .emptyTag :: rest) =
      (parent, c.element) :: placed (parent :: opened) rest := placed_openFrags parent opened c.element c.indent rfl
  unfold Child.frags
  cases c.blanks with
  | none => simpa using htag
  | some count => simpa [placed] using htag

theorem placed_children (parent : String) (opened : List String) (children : List (Child Node ι φ))
    (rest : List (Frag Node ι φ)) : placed (parent :: opened) (children.flatMap Child.frags ++ rest) =
      children.map (fun c => (parent, c.element)) ++ placed (parent :: opened) rest := by
  induction children with
  | nil => rfl
  | cons c children ih =>
      rw [List.flatMap_cons, List.append_assoc, placed_child, ih]
      rfl

/-- The elements of an entry in their parents, when the entry stands in `parent`. -/
def Entry.placed (parent : String) (e : Entry Node ι φ) : List (String × Element Node ι φ) :=
  (parent, e.element) :: (e.children.getD []).map fun c => (e.element.tag, c.element)

theorem placed_entry (parent : String) (opened : List String) (e : Entry Node ι φ) (rest : List (Frag Node ι φ)) :
    GccXml.placed (parent :: opened) (e.frags ++ rest) = e.placed parent ++ GccXml.placed (parent :: opened) rest := by
  unfold Entry.frags Entry.placed
  cases e.children with
  | none =>
      have hopen : GccXml.placed (parent :: opened) (e.element.openFrags 2 ++ .emptyTag :: rest) =
          (parent, e.element) :: GccXml.placed (parent :: opened) rest := placed_openFrags parent opened e.element 2 rfl
      simpa using hopen
  | some children =>
      have hchildren := placed_children e.element.tag (parent :: opened) children (.endTag 2 e.element.tag :: rest)
      simp only [List.append_assoc, List.cons_append, List.nil_append, Option.getD_some]
      rw [placed_openFrags parent opened e.element 2 rfl]
      simpa [GccXml.placed] using hchildren

theorem placed_entries (parent : String) (opened : List String) (es : List (Entry Node ι φ))
    (rest : List (Frag Node ι φ)) : GccXml.placed (parent :: opened) (es.flatMap Entry.frags ++ rest) =
      es.flatMap (Entry.placed parent) ++ GccXml.placed (parent :: opened) rest := by
  induction es with
  | nil => rfl
  | cons e es ih => rw [List.flatMap_cons, List.append_assoc, placed_entry, ih, List.flatMap_cons, List.append_assoc]

end

/-! ## Conformance -/

/-- An element `tag` in an element `parent`, with attributes of the names `names`, is one that the description
    declares. -/
def IsDescribed (parent tag : String) (names : List String) : Prop :=
  ∃ e ∈ doXmlDocument.declared parent tag, e.Describes names

section
variable {Node ι φ : Type}

/-- The names of the attributes of an element. -/
def Element.names (e : Element Node ι φ) : List String := e.attrs.map (·.1)

/-- **The document conforms to the description**: every element below the root is one that is declared for its parent,
    has attributes that are declared for it, and has those that are required. `root` is the name by which the
    description is searched for the elements that stand in the root. -/
def Conforms (root : String) (doc : List (Frag Node ι φ)) : Prop :=
  ∀ p ∈ placed [] doc, IsDescribed (if p.1 = "GCC_XML" then root else p.1) p.2.tag p.2.names

end

instance (parent tag : String) (names : List String) : Decidable (IsDescribed parent tag names) :=
  inferInstanceAs (Decidable (∃ e ∈ _, _))

instance {Node ι φ : Type} (root : String) (doc : List (Frag Node ι φ)) : Decidable (Conforms root doc) :=
  inferInstanceAs (Decidable (∀ p ∈ placed [] doc, _))

/-- The root that is printed has no element in the description. -/
theorem not_isDescribed_printedRoot (tag : String) (names : List String) : ¬ IsDescribed "GCC_XML" tag names := by
  have hnone : doXmlDocument.all.filter (·.name = "GCC_XML") = [] := by rfl
  rintro ⟨e, he, -⟩
  rw [XmlDocumentElement.declared, hnone] at he
  simp at he

/-- What the description says about the names `all`, for an element `tag` in `parent`: those it does not declare, and
    the names that it requires. -/
def describedNames (parent tag : String) (all : List String) : List (List String × List String) :=
  (doXmlDocument.declared parent tag).map fun e =>
    (all.filter fun name => name ∉ e.attributes.map (·.name), (e.attributes.filter (·.use = .required)).map (·.name))

/-- An element with attributes among `all` is declared if it has none of `bad` and every one of `need`. -/
theorem isDescribed_iff {parent tag : String} {all names : List String} (bad need : List String) (hsub : ∀ name ∈ names, name ∈ all)
    (hne : describedNames parent tag all ≠ []) (hall : ∀ p ∈ describedNames parent tag all, p = (bad, need)) :
    IsDescribed parent tag names ↔ (∀ name ∈ bad, name ∉ names) ∧ ∀ name ∈ need, name ∈ names := by
  have hone : ∀ e ∈ doXmlDocument.declared parent tag,
      (e.Describes names ↔ (∀ name ∈ bad, name ∉ names) ∧ ∀ name ∈ need, name ∈ names) := by
    intro e he
    have hpair := hall _ (List.mem_map.mpr ⟨e, he, rfl⟩)
    have hbad : all.filter (fun name => name ∉ e.attributes.map (·.name)) = bad := (Prod.mk.inj hpair).1
    have hneed : (e.attributes.filter (·.use = .required)).map (·.name) = need := (Prod.mk.inj hpair).2
    rw [← hbad, ← hneed]
    refine and_congr ⟨fun h name hname hmem => ?_, fun h name hname => ?_⟩ ⟨fun h name hname => ?_, fun h a ha huse => ?_⟩
    · have hnot := (List.mem_filter.mp hname).2
      exact (of_decide_eq_true hnot) (h name hmem)
    · by_contra hnot
      exact h name (List.mem_filter.mpr ⟨hsub name hname, decide_eq_true hnot⟩) hname
    · obtain ⟨a, ha, rfl⟩ := List.mem_map.mp hname
      obtain ⟨ha, huse⟩ := List.mem_filter.mp ha
      exact h a ha (of_decide_eq_true huse)
    · exact h _ (List.mem_map.mpr ⟨a, List.mem_filter.mpr ⟨ha, decide_eq_true huse⟩, rfl⟩)
  obtain ⟨e, he⟩ := List.exists_mem_of_ne_nil _ fun hnil => hne (List.map_eq_nil_iff.mpr hnil)
  exact ⟨fun ⟨e', he', h⟩ => (hone e' he').mp h, fun h => ⟨e, he, (hone e he).mpr h⟩⟩

/-! ## The names that are printed -/

section
variable {Node : Type} {α β : Type}

/-- The names of the attributes that a printing function writes, in order. -/
def namesOf (p : Print Node α) : List String := (attrsOf p).map (·.1)

@[simp] theorem namesOf_pure (a : α) : namesOf (pure a : Print Node α) = [] := rfl
@[simp] theorem namesOf_bind (p : Print Node α) (f : α → Print Node β) :
    namesOf (p >>= f) = namesOf p ++ namesOf (f p.value) := by simp [namesOf]
@[simp] theorem namesOf_writeAttr (name : String) (value : List (SymPiece Node)) :
    namesOf (writeAttr name value) = [name] := rfl
@[simp] theorem namesOf_when (c : Prop) [Decidable c] (p : Print Node Unit) :
    namesOf (Trace.when c p) = if c then namesOf p else [] := by
  unfold Trace.when; split <;> rfl
theorem namesOf_of_fragsOf_nil {p : Print Node α} (h : fragsOf p = []) : namesOf p = [] := by
  rw [namesOf, attrsOf_of_fragsOf_nil h, List.map_nil]

@[simp] theorem names_attrsOf (tag : String) (p : Print Node Unit) :
    (⟨tag, attrsOf p⟩ : SymElement Node).names = namesOf p := rfl

theorem AttrBlock.mem_of_mem_namesOf {names : List String} {p : Print Node Unit} (hp : AttrBlock names p) :
    ∀ name ∈ namesOf p, name ∈ names := fun _ hname => hp.names.subset hname

/-- A block of one attribute has it or not. -/
theorem AttrBlock.optional {name : String} {p : Print Node Unit} (hp : AttrBlock [name] p) :
    ∃ b : Bool, namesOf p = if b then [name] else [] := by
  have hsub : List.Sublist (namesOf p) [name] := hp.names
  rcases List.sublist_singleton.mp hsub with h | h
  · exact ⟨false, h⟩
  · exact ⟨true, h⟩

/-- A block that may be skipped has no name when it is. -/
theorem AttrBlock.whenNames {names : List String} {c : Prop} [Decidable c] {p : Print Node Unit}
    (hp : AttrBlock names p) : AttrBlock (if c then names else []) (Trace.when c p) := by
  unfold Trace.when
  split
  · exact hp
  · exact .nothing []

@[simp] theorem namesOf_flagAttribute (name : String) (flag : Bool) :
    namesOf (flagAttribute name flag : Print Node Unit) = if flag then [name] else [] := by simp [flagAttribute]
@[simp] theorem namesOf_xmlPrintLocationAttribute (file : String) (line : Nat) :
    namesOf (xmlPrintLocationAttribute file line : Print Node Unit) = ["location", "file", "line"] := rfl
@[simp] theorem namesOf_xmlPrintIdAttribute (n : Node) : namesOf (xmlPrintIdAttribute n) = ["id"] := rfl
@[simp] theorem namesOf_xmlPrintNameAttribute (n : Option String) :
    namesOf (xmlPrintNameAttribute n : Print Node Unit) = ["name"] := rfl

end

section
variable {Node : Type} (tu : TranslationUnit Node)

@[simp] theorem namesOf_xmlPrintDeclLocationAttribute (d : Node) :
    namesOf (xmlPrintDeclLocationAttribute tu d) = ["location", "file", "line"] := rfl
@[simp] theorem namesOf_xmlPrintMangledAttribute (n : Node) :
    namesOf (xmlPrintMangledAttribute tu n) = if (mangledName tu n).isSome then ["mangled"] else [] := by
  unfold xmlPrintMangledAttribute
  cases mangledName tu n <;> rfl
@[simp] theorem namesOf_xmlPrintAlignAttribute (t : Node) : namesOf (xmlPrintAlignAttribute tu t) = ["align"] := rfl
@[simp] theorem namesOf_xmlPrintArrayAttributes (t : Node) :
    namesOf (xmlPrintArrayAttributes tu t) = ["min", "max"] := rfl

variable [DecidableEq Node]

@[simp] theorem namesOf_xmlPrintTypeIdref (t : Node) (c : Bool) : namesOf (xmlPrintTypeIdref tu t c) = [] :=
  namesOf_of_fragsOf_nil (fragsOf_xmlPrintTypeIdref tu t c)
@[simp] theorem namesOf_addNode (n : Node) (c : Bool) : namesOf (addNode tu n c) = [] := rfl
@[simp] theorem namesOf_xmlPrintTypeAttribute (t : Node) (c : Bool) :
    namesOf (xmlPrintTypeAttribute tu t c) = ["type"] := by simp [xmlPrintTypeAttribute]
@[simp] theorem namesOf_xmlPrintReturnsAttribute (t : Node) (c : Bool) :
    namesOf (xmlPrintReturnsAttribute tu t c) = ["returns"] := by simp [xmlPrintReturnsAttribute]
@[simp] theorem namesOf_xmlPrintBaseTypeAttribute (t : Node) (c : Bool) :
    namesOf (xmlPrintBaseTypeAttribute tu t c) = ["basetype"] := by simp [xmlPrintBaseTypeAttribute]
@[simp] theorem namesOf_xmlPrintContextAttribute (n : Node) :
    namesOf (xmlPrintContextAttribute tu n) =
      if n ≠ tu.globalNamespace then "context" :: if tu.typeP (tu.cpDeclContext n) then ["access"] else [] else [] := by
  simp [xmlPrintContextAttribute]

/-! ## Elements that conform -/

/-- The node has a `context` attribute, and no `access` attribute unless `access` declares one. -/
def DescribedContext (n : Node) (access : Bool) : Prop :=
  n ≠ tu.globalNamespace ∧ (access = true ∨ ¬ tu.typeP (tu.cpDeclContext n))

theorem namespace_isDescribed (ns : Node) (c : Bool) :
    IsDescribed "GCC-XML" "Namespace" (namesOf (namespaceAttributes tu ns c)) ↔
      (tu.tree ns).declName.isSome ∧ DescribedContext tu ns false ∧ (mangledName tu ns).isSome := by
  obtain ⟨_, hattributes⟩ := (@xmlPrintAttributesAttribute_block Node (tu.tree ns).declAttributes []).optional
  obtain ⟨_, hmembers⟩ := (xmlPrintNamespaceMembers_block tu ns).optional
  obtain ⟨_, hdemangled⟩ := (xmlPrintDemangledAttribute_block tu ns).optional
  rw [isDescribed_iff ["access"] ["id", "name", "context", "mangled"]
    (namespaceAttributes_block tu ns c).mem_of_mem_namesOf (by decide) (by decide)]
  simp [namespaceAttributes, hattributes, hmembers, hdemangled, DescribedContext]
  tauto

theorem namespaceAlias_isDescribed (ns : Node) :
    IsDescribed "GCC-XML" "NamespaceAlias" (namesOf (namespaceAliasAttributes tu ns)) ↔
      DescribedContext tu ns false ∧ (mangledName tu ns).isSome := by
  obtain ⟨_, hdemangled⟩ := (xmlPrintDemangledAttribute_block tu ns).optional
  rw [isDescribed_iff ["access"] ["id", "name", "context", "namespace", "mangled"]
    (namespaceAliasAttributes_block tu ns).mem_of_mem_namesOf (by decide) (by decide)]
  simp [namespaceAliasAttributes, hdemangled, DescribedContext]
  tauto

theorem typedef_isDescribed (td : Node) (c : Bool) :
    IsDescribed "GCC-XML" "Typedef" (namesOf (typedefAttributes tu td c)) ↔ td ≠ tu.globalNamespace := by
  obtain ⟨_, hattributes⟩ := (@xmlPrintAttributesAttribute_block Node (tu.tree td).declAttributes []).optional
  rw [isDescribed_iff [] ["id", "name", "type", "context", "file", "line"]
    (typedefAttributes_block tu td c).mem_of_mem_namesOf (by decide) (by decide)]
  simp [typedefAttributes, hattributes]

/-- The names of the attributes that a function of the shape may have. -/
def FunctionShape.attributeNames (shape : FunctionShape) : List String :=
  ["id"] ++ (["name"] ++ ((if shape.doReturns then ["returns"] else []) ++
    ((if shape.doExplicit then ["explicit"] else []) ++ ((if shape.doConst then ["const"] else []) ++
    ((if shape.doVirtual then ["virtual", "pure_virtual", "overrides"] else []) ++
    ((if shape.doStaticMethod then ["static"] else []) ++ ((if shape.doStaticFunction then ["static"] else []) ++
    ((if shape.doArtificial then ["artificial"] else []) ++
    ["throw", "context", "access", "mangled", "demangled", "location", "file", "line", "endline", "extern", "inline",
      "attributes", "befriending"]))))))))

theorem functionAttributes_shape (fd : Node) (c : Bool) :
    AttrBlock (functionShape tu fd).attributeNames (functionAttributes tu fd c) :=
  .seq (xmlPrintIdAttribute_block fd) <| .seq (.when (xmlPrintNameAttribute_block _)) <|
    .seq (.whenNames (xmlPrintReturnsAttribute_block tu _ c)) <| .seq (.whenNames (flagAttribute_block "explicit" _)) <|
    .seq (.whenNames (flagAttribute_block "const" _)) <| .seq (.whenNames (xmlPrintVirtualMethodAttributes_block tu fd)) <|
    .seq (.whenNames (flagAttribute_block "static" _)) <| .seq (.whenNames (flagAttribute_block "static" _)) <|
    .seq (.whenNames (flagAttribute_block "artificial" _)) <| .seq (xmlPrintThrowAttribute_block tu _ c) <|
    .seq (xmlPrintContextAttribute_block tu fd) <| .seq (xmlPrintMangledAttribute_block tu fd) <|
    .seq (xmlPrintDemangledAttribute_block tu fd) <| .seq (xmlPrintDeclLocationAttribute_block tu fd) <|
    .seq (.whenSome fun _ => xmlPrintEndlineAttribute_block _) <| .seq (flagAttribute_block "extern" _) <|
    .seq (flagAttribute_block "inline" _) <| .seq (xmlPrintAttributesAttribute_block _ _) <|
    xmlPrintBefriendingAttribute_block tu _

/-- The attributes of a function that a description may require, or may leave out. -/
theorem functionAttributes_names (fd : Node) (c : Bool) :
    (∀ name ∈ ["id", "file", "line"], name ∈ namesOf (functionAttributes tu fd c)) ∧
      ("name" ∈ namesOf (functionAttributes tu fd c) ↔ (functionShape tu fd).doName = true) ∧
      ("returns" ∈ namesOf (functionAttributes tu fd c) ↔ (functionShape tu fd).doReturns = true) ∧
      ("context" ∈ namesOf (functionAttributes tu fd c) ↔ fd ≠ tu.globalNamespace) ∧
      ("access" ∈ namesOf (functionAttributes tu fd c) ↔
        fd ≠ tu.globalNamespace ∧ tu.typeP (tu.cpDeclContext fd) = true) ∧
      ("mangled" ∈ namesOf (functionAttributes tu fd c) ↔ (mangledName tu fd).isSome) ∧
      ("artificial" ∈ namesOf (functionAttributes tu fd c) ↔
        (functionShape tu fd).doArtificial = true ∧ (tu.tree fd).declArtificial = true) := by
  obtain ⟨_, hoverrides⟩ := (xmlPrintOverridesMethodAttribute_block tu fd).optional
  obtain ⟨_, hthrow⟩ := (xmlPrintThrowAttribute_block tu (tu.treeType fd) c).optional
  obtain ⟨_, hdemangled⟩ := (xmlPrintDemangledAttribute_block tu fd).optional
  obtain ⟨_, hendline⟩ := (AttrBlock.whenSome (o := (tu.tree fd).declSavedTree) fun b =>
    @xmlPrintEndlineAttribute_block Node b).optional
  obtain ⟨_, hattributes⟩ := (@xmlPrintAttributesAttribute_block Node (tu.tree fd).declAttributes
    (tu.tree (tu.treeType fd)).typeAttributes).optional
  obtain ⟨_, hfriends⟩ := (xmlPrintBefriendingAttribute_block tu (tu.tree fd).befriendingClasses).optional
  simp [functionAttributes, hoverrides, hthrow, hdemangled, hendline, hattributes, hfriends,
    xmlPrintExplicitAttribute, xmlPrintConstMethodAttribute, xmlPrintVirtualMethodAttributes,
    xmlPrintStaticMethodAttribute, xmlPrintStaticAttribute, xmlPrintArtificialAttribute,
    xmlPrintFunctionExternAttribute, xmlPrintInlineAttribute]

/-- A function is described by its shape: a constructor of an anonymous class has no name, a friend that is no method
    has an `access` attribute, and a compiler-generated operator an `artificial` one. -/
theorem function_isDescribed (fd : Node) (c : Bool) :
    IsDescribed "GCC-XML" (functionShape tu fd).tag (namesOf (functionAttributes tu fd c)) ↔
      (functionShape tu fd).doName = true ∧
        DescribedContext tu fd ((functionShape tu fd).tag ∉ ["OperatorFunction", "Function"]) ∧
        (mangledName tu fd).isSome ∧
        ((functionShape tu fd).tag = "OperatorMethod" → (tu.tree fd).declArtificial = false) := by
  have hblock := (functionAttributes_shape tu fd c).mem_of_mem_namesOf
  obtain ⟨halways, hname, hreturns, hcontext, haccess, hmangled, hartificial⟩ := functionAttributes_names tu fd c
  simp only [List.forall_mem_cons] at halways
  obtain ⟨hid, hfile, hline, -⟩ := halways
  generalize namesOf (functionAttributes tu fd c) = names at *
  have hone : ∀ bad need, describedNames "GCC-XML" (functionShape tu fd).tag (functionShape tu fd).attributeNames =
      [(bad, need)] → (IsDescribed "GCC-XML" (functionShape tu fd).tag names ↔
        (∀ name ∈ bad, name ∉ names) ∧ ∀ name ∈ need, name ∈ names) :=
    fun bad need h => isDescribed_iff bad need hblock (by rw [h]; simp) (by rw [h]; simp)
  -- one case for each shape: constructor, destructor, converter, the two operators, method and function
  unfold functionShape at hone hname hreturns hartificial ⊢
  dsimp only at hone hname hreturns hartificial ⊢
  split_ifs at hone hname hreturns hartificial ⊢
  · rw [hone [] ["id", "name", "context", "mangled", "file", "line"] rfl]
    simp [DescribedContext, *]
  · rw [hone [] ["id", "name", "context", "mangled", "file", "line"] rfl]
    simp [DescribedContext, *]
  · rw [hone [] ["id", "name", "returns", "context", "mangled", "file", "line"] rfl]
    simp [DescribedContext, *]
  · rw [hone ["artificial"] ["id", "name", "returns", "context", "mangled", "file", "line"] rfl]
    simp [DescribedContext, *]
    tauto
  · rw [hone ["access"] ["id", "name", "returns", "context", "mangled", "file", "line"] rfl]
    simp [DescribedContext, *]
    exact ⟨fun ⟨haccess, hne, hm⟩ => ⟨⟨hne, haccess hne⟩, hm⟩, fun ⟨⟨hne, h⟩, hm⟩ => ⟨fun _ => h, hne, hm⟩⟩
  · rw [hone [] ["id", "name", "returns", "context", "mangled", "file", "line"] rfl]
    simp [DescribedContext, *]
  · rw [hone ["access"] ["id", "name", "returns", "context", "mangled", "file", "line"] rfl]
    simp [DescribedContext, *]
    exact ⟨fun ⟨haccess, hne, hm⟩ => ⟨⟨hne, haccess hne⟩, hm⟩, fun ⟨⟨hne, h⟩, hm⟩ => ⟨fun _ => h, hne, hm⟩⟩

theorem varDecl_isDescribed (vd : Node) (c : Bool) :
    IsDescribed "GCC-XML" "Variable" (namesOf (varDeclAttributes tu vd c)) ↔
      vd ≠ tu.globalNamespace ∧ (mangledName tu vd).isSome := by
  obtain ⟨_, hinit⟩ := (@xmlPrintInitAttribute_block Node (tu.tree vd).declInitial).optional
  obtain ⟨_, hdemangled⟩ := (xmlPrintDemangledAttribute_block tu vd).optional
  obtain ⟨_, hattributes⟩ := (@xmlPrintAttributesAttribute_block Node (tu.tree vd).declAttributes []).optional
  rw [isDescribed_iff [] ["id", "name", "type", "context", "mangled", "file", "line"]
    (varDeclAttributes_block tu vd c).mem_of_mem_namesOf (by decide) (by decide)]
  simp [varDeclAttributes, hinit, hdemangled, hattributes, xmlPrintStaticAttribute, xmlPrintExternAttribute,
    xmlPrintArtificialAttribute]

theorem fieldDecl_isDescribed (fd : Node) (c : Bool) :
    IsDescribed "GCC-XML" "Field" (namesOf (fieldDeclAttributes tu fd c)) ↔
      fd ≠ tu.globalNamespace ∧ (mangledName tu fd).isSome := by
  obtain ⟨_, hbits⟩ := (xmlPrintBitsAttribute_block tu fd).optional
  obtain ⟨_, hoffset⟩ := (xmlPrintOffsetAttribute_block tu fd).optional
  obtain ⟨_, hdemangled⟩ := (xmlPrintDemangledAttribute_block tu fd).optional
  obtain ⟨_, hattributes⟩ := (@xmlPrintAttributesAttribute_block Node (tu.tree fd).declAttributes []).optional
  rw [isDescribed_iff [] ["id", "name", "type", "context", "mangled", "file", "line"]
    (fieldDeclAttributes_block tu fd c).mem_of_mem_namesOf (by decide) (by decide)]
  simp [fieldDeclAttributes, hbits, hoffset, hdemangled, hattributes, xmlPrintMutableAttribute]

/-- The flag `incomplete` is declared under the name `init`. -/
theorem record_isDescribed (rt : Node) (c : Bool) :
    IsDescribed "GCC-XML" (recordTag tu rt) (namesOf (recordAttributes tu rt c)) ↔
      tu.typeNameOf rt ≠ tu.globalNamespace ∧ (tu.tree rt).completeTypeP = true ∧
        (mangledName tu (tu.typeNameOf rt)).isSome := by
  have hblock := (recordAttributes_block tu rt c).mem_of_mem_namesOf
  obtain ⟨_, hdemangled⟩ := (xmlPrintDemangledAttribute_block tu (tu.typeNameOf rt)).optional
  obtain ⟨_, hattributes⟩ := (@xmlPrintAttributesAttribute_block Node (tu.tree rt).typeAttributes []).optional
  obtain ⟨_, hsize⟩ := (@constantAttribute_block Node "size" (tu.tree rt).typeSize).optional
  obtain ⟨_, hfriends⟩ := (xmlPrintBefriendingAttribute_block tu (tu.tree rt).befriendingClasses).optional
  obtain ⟨_, hmembers⟩ := (xmlPrintRecordMembers_block tu rt).optional
  obtain ⟨_, hbases⟩ := (AttrBlock.whenSome (o := printedBases tu rt c) fun bs => xmlPrintBasesAttribute_block tu bs).optional
  have hiff : (∀ name ∈ ["incomplete"], name ∉ namesOf (recordAttributes tu rt c)) ∧
      (∀ name ∈ ["id", "context", "mangled", "file", "line", "align"], name ∈ namesOf (recordAttributes tu rt c)) ↔
      tu.typeNameOf rt ≠ tu.globalNamespace ∧ (tu.tree rt).completeTypeP = true ∧
        (mangledName tu (tu.typeNameOf rt)).isSome := by
    simp [recordAttributes, hdemangled, hattributes, hsize, hfriends, hmembers, hbases, xmlPrintSizeAttribute,
      xmlPrintAbstractAttribute, xmlPrintIncompleteAttribute, xmlPrintArtificialAttribute]
    tauto
  have htag := recordTag_mem_recordTags tu rt
  simp only [recordTags, List.mem_cons, List.not_mem_nil, or_false] at htag
  rcases htag with htag | htag | htag <;> rw [htag, ← hiff] <;>
    exact isDescribed_iff _ _ hblock (by decide) (by decide)

omit [DecidableEq Node] in
theorem base_isDescribed {parent : String} (h : parent ∈ recordTags) (base : BaseBinfo Node) (id : Option Node) :
    IsDescribed parent "Base" (namesOf (baseAttributes base id)) := by
  have hnames : namesOf (baseAttributes base id) = ["type", "access", "virtual", "offset"] := rfl
  rw [hnames]
  revert parent
  decide

omit [DecidableEq Node] in
theorem fundamentalType_isDescribed (t : Node) :
    IsDescribed "GCC-XML" "FundamentalType" (namesOf (fundamentalTypeAttributes tu t)) ↔
      (tu.tree t).typeName.isSome := by
  obtain ⟨_, hattributes⟩ := (@xmlPrintAttributesAttribute_block Node (tu.tree t).typeAttributes []).optional
  obtain ⟨_, hsize⟩ := (@constantAttribute_block Node "size" (tu.tree t).typeSize).optional
  rw [isDescribed_iff [] ["id", "name", "align"] (fundamentalTypeAttributes_block tu t).mem_of_mem_namesOf (by decide)
    (by decide)]
  cases hname : (tu.tree t).typeName <;>
    simp [fundamentalTypeAttributes, hname, hattributes, hsize, xmlPrintSizeAttribute]

theorem functionType_isDescribed (t : Node) (c : Bool) :
    IsDescribed "GCC-XML" "FunctionType" (namesOf (functionTypeAttributes tu t c)) := by
  rw [isDescribed_iff [] ["id", "returns"] (functionTypeAttributes_block tu t c).mem_of_mem_namesOf (by decide)
    (by decide)]
  simp [functionTypeAttributes]

theorem methodType_isDescribed (t : Node) (c : Bool) :
    IsDescribed "GCC-XML" "MethodType" (namesOf (methodTypeAttributes tu t c)) := by
  rw [isDescribed_iff [] ["id", "basetype", "returns"] (methodTypeAttributes_block tu t c).mem_of_mem_namesOf (by decide)
    (by decide)]
  simp [methodTypeAttributes]

theorem indirectType_isDescribed {tag : String} (h : tag ∈ ["PointerType", "ReferenceType"]) (t : Node) :
    IsDescribed "GCC-XML" tag (namesOf (indirectTypeAttributes tu t)) := by
  simp only [List.mem_cons, List.not_mem_nil, or_false] at h
  rcases h with rfl | rfl <;>
    rw [isDescribed_iff [] ["id", "type", "align"] (indirectTypeAttributes_block tu t).mem_of_mem_namesOf (by decide)
      (by decide)] <;>
    simp [indirectTypeAttributes]

theorem offsetType_isDescribed (t : Node) (c : Bool) :
    IsDescribed "GCC-XML" "OffsetType" (namesOf (offsetTypeAttributes tu t c)) := by
  rw [isDescribed_iff [] ["id", "basetype", "type", "align"] (offsetTypeAttributes_block tu t c).mem_of_mem_namesOf
    (by decide) (by decide)]
  simp [offsetTypeAttributes]

theorem arrayType_isDescribed (t : Node) (c : Bool) :
    IsDescribed "GCC-XML" "ArrayType" (namesOf (arrayTypeAttributes tu t c)) := by
  rw [isDescribed_iff [] ["id", "min", "max", "type", "align"] (arrayTypeAttributes_block tu t c).mem_of_mem_namesOf
    (by decide) (by decide)]
  simp [arrayTypeAttributes]

theorem enumeralType_isDescribed (t : Node) :
    IsDescribed "GCC-XML" "Enumeration" (namesOf (enumeralTypeAttributes tu t)) ↔
      tu.typeNameOf t ≠ tu.globalNamespace := by
  obtain ⟨_, hattributes⟩ := (@xmlPrintAttributesAttribute_block Node (tu.tree t).typeAttributes []).optional
  obtain ⟨_, hsize⟩ := (@constantAttribute_block Node "size" (tu.tree t).typeSize).optional
  rw [isDescribed_iff [] ["id", "name", "context", "file", "line", "align"]
    (enumeralTypeAttributes_block tu t).mem_of_mem_namesOf (by decide) (by decide)]
  simp [enumeralTypeAttributes, hattributes, hsize, xmlPrintSizeAttribute, xmlPrintArtificialAttribute]

omit [DecidableEq Node] in
/-- An enumerator that is no `INTEGER_CST` is printed without the id that is required. -/
theorem enumValue_isDescribed (tv : Option String × Node) :
    IsDescribed "Enumeration" (enumValueChild tu tv).element.tag (enumValueChild tu tv).element.names ↔
      tu.treeCode tv.2 = .integerCst := by
  unfold enumValueChild
  split
  · rename_i hcode
    have hnames : namesOf (enumValueAttributes tu tv.1 tv.2) = ["name", "init"] := rfl
    simp only [hcode, names_attrsOf, hnames, iff_true]
    decide
  · rename_i hcode
    have hnames : namesOf (unimplementedAttributes tu tv.2 none (some "xml_output_enumeral_type")) =
        ["tree_code", "tree_code_name", "node", "function"] := rfl
    simp only [hcode, names_attrsOf, hnames, iff_false]
    decide

omit [DecidableEq Node] in
theorem unimplemented_isDescribed (n : Node) :
    IsDescribed "GCC-XML" "Unimplemented" (namesOf (unimplementedAttributes tu n (some n) none)) := by
  have hnames : namesOf (unimplementedAttributes tu n (some n) none) =
      ["id", "tree_code", "tree_code_name", "node"] := rfl
  rw [hnames]
  decide

omit [DecidableEq Node] tu in
theorem cvQualifiedType_isDescribed (t : Node) (id : Option Node) (q : Quals) :
    IsDescribed "GCC-XML" "CvQualifiedType" (namesOf (cvQualifiedTypeAttributes t id q)) := by
  rw [isDescribed_iff [] ["id", "type"] (cvQualifiedTypeAttributes_block t id q).mem_of_mem_namesOf (by decide)
    (by decide)]
  simp [cvQualifiedTypeAttributes]

/-! ### Arguments -/

/-- The functions without arguments in the description. -/
def unlistedArguments : List String := ["Destructor", "Converter"]

/-- The functions without an ellipsis in the description. -/
def unlistedEllipsis : List String := ["Destructor", "Converter", "OperatorMethod", "OperatorFunction"]

omit [DecidableEq Node] tu in
theorem not_isDescribed_of_declared_nil {parent tag : String} {names : List String}
    (h : doXmlDocument.declared parent tag = []) : ¬ IsDescribed parent tag names := by
  rintro ⟨e, he, -⟩
  rw [h] at he
  exact List.not_mem_nil he

theorem argument_isDescribed {tag : String} (h : tag ∈ "FunctionType" :: "MethodType" :: functionTags)
    (pd : Option (ParmDecl Node)) (tl : ArgType Node) (c : Bool) :
    IsDescribed tag "Argument" (namesOf (argumentAttributes tu pd tl c)) ↔ tag ∉ unlistedArguments := by
  have hblock := (argumentAttributes_block tu pd tl c).mem_of_mem_namesOf
  have hdeclared : ∀ tag ∈ "FunctionType" :: "MethodType" :: functionTags, tag ∉ unlistedArguments →
      describedNames tag "Argument" ["name", "type", "location", "file", "line", "default", "attributes"] =
        [([], ["type"])] := by decide
  have hnone : ∀ tag ∈ unlistedArguments, doXmlDocument.declared tag "Argument" = [] := by
    intro tag htag
    simp only [unlistedArguments, List.mem_cons, List.not_mem_nil, or_false] at htag
    rcases htag with rfl | rfl <;> rfl
  refine ⟨fun hd hun => not_isDescribed_of_declared_nil (hnone tag hun) hd, fun hun => ?_⟩
  rw [isDescribed_iff [] ["type"] hblock (by simp [hdeclared tag h hun]) (by simp [hdeclared tag h hun])]
  simp [argumentAttributes]

omit [DecidableEq Node] tu in
theorem ellipsis_isDescribed : ∀ tag ∈ "FunctionType" :: "MethodType" :: functionTags,
    IsDescribed tag "Ellipsis" [] ↔ tag ∉ unlistedEllipsis := by decide

/-- The arguments of a function are described where the description lists them, and so is the ellipsis. -/
theorem argumentChildren_isDescribed {tag : String} (h : tag ∈ "FunctionType" :: "MethodType" :: functionTags)
    (c : Bool) (args : List (Option (ParmDecl Node) × ArgType Node)) (endVoid : Bool) :
    (∀ child ∈ argumentChildren tu c args endVoid, IsDescribed tag child.element.tag child.element.names) ↔
      (tag ∈ unlistedArguments → args = []) ∧ (tag ∈ unlistedEllipsis → endVoid = true) := by
  have hargs : (∀ child ∈ args.map (argumentChild tu c), IsDescribed tag child.element.tag child.element.names) ↔
      (tag ∈ unlistedArguments → args = []) := by
    rw [List.forall_mem_map]
    constructor
    · intro hall hun
      rw [List.eq_nil_iff_forall_not_mem]
      intro arg harg
      exact (argument_isDescribed tu h arg.1 arg.2 c).mp (hall arg harg) hun
    · intro hnone arg harg
      refine (argument_isDescribed tu h arg.1 arg.2 c).mpr fun hun => ?_
      rw [hnone hun] at harg
      exact List.not_mem_nil harg
  have hellipsis : (∀ child ∈ (ellipsisChild endVoid : List (SymChild Node)),
      IsDescribed tag child.element.tag child.element.names) ↔ (tag ∈ unlistedEllipsis → endVoid = true) := by
    cases endVoid with
    | true => simp [ellipsisChild]
    | false =>
        have hone := ellipsis_isDescribed tag h
        simpa [ellipsisChild, Element.names] using hone
  rw [argumentChildren, List.forall_mem_append, hargs, hellipsis]

end

end GccXml
