import GccXml.Xml.Conformance

namespace GccXml

/-! # `Xml.Described` — which documents conform to their description

The elements that printing a node writes are described or not by what the node is: `Described`. A document conforms to
the description when every node that the run reaches is described, and no location is printed, since the description
leaves out the `File` elements.

`Conformance` has one lemma for each kind of element. Here they are put together by the switch of `xml_dump_tree_node`:
`Described n` has one clause for each tree code, with what the element, its children and its variants need. That it is
the right condition for the entry of a node is shown case by case, for both completeness flags at once, since the flag
decides only about attributes that are declared and not required.

A document is a root, entries and files. So conformance is a statement about the entries of the printed nodes, which
are those that are reached, and about the files, of which there are none exactly if no location is printed. The name by
which the description is searched for the children of the root is a parameter: the root that is printed and the root of
the description have different names. -/

open DumpInfo

section
variable {Node : Type} [DecidableEq Node] (tu : TranslationUnit Node)

/-! ## Described nodes -/

/-- The function is printed as the description says. -/
structure FunctionDescribed (fd : Node) : Prop where
  /-- It is no constructor of an anonymous class. -/
  name : (functionShape tu fd).doName = true
  context : DescribedContext tu fd ((functionShape tu fd).tag ∉ ["OperatorFunction", "Function"])
  mangled : (mangledName tu fd).isSome
  artificial : (functionShape tu fd).tag = "OperatorMethod" → (tu.tree fd).declArtificial = false
  arguments : (functionShape tu fd).tag ∈ unlistedArguments → functionArguments tu fd = []
  ellipsis : (functionShape tu fd).tag ∈ unlistedEllipsis → (tu.tree (tu.treeType fd)).argTypesEndVoid = true

/-- The type, its own main variant, is printed as the description says. -/
def MainVariantDescribed (t : Node) : Prop :=
  match tu.treeCode t with
  | .unionType | .qualUnionType | .recordType =>
      tu.typeNameOf t ≠ tu.globalNamespace ∧ (tu.tree t).completeTypeP = true ∧
        (mangledName tu (tu.typeNameOf t)).isSome
  | .enumeralType =>
      tu.typeNameOf t ≠ tu.globalNamespace ∧ ∀ tv ∈ (tu.tree t).typeValues, tu.treeCode tv.2 = .integerCst
  | .langType | .integerType | .booleanType | .realType | .voidType | .complexType => (tu.tree t).typeName.isSome
  | _ => True

/-- **The node is printed as the description says**: it has a context, a name and a mangled name where these are
    required, no attribute or child that its element is not declared for, and it is no incomplete class. -/
def Described (n : Node) : Prop :=
  match tu.treeCode n with
  | .namespaceDecl =>
      ((tu.tree n).declNamespaceAlias = none → (tu.tree n).declName.isSome) ∧ DescribedContext tu n false ∧
        (mangledName tu n).isSome
  | .typeDecl => n ≠ tu.globalNamespace
  | .functionDecl => FunctionDescribed tu n
  | .varDecl | .fieldDecl => n ≠ tu.globalNamespace ∧ (mangledName tu n).isSome
  | .unionType | .qualUnionType | .recordType | .arrayType | .pointerType | .referenceType | .functionType
  | .methodType | .offsetType | .enumeralType | .langType | .integerType | .booleanType | .realType
  | .voidType | .complexType => n = tu.typeMainVariant n → MainVariantDescribed tu n
  | _ => True

/-! ## Described entries -/

/-- Every element of the entry, in an element `parent`, is one that the description declares. -/
def Entry.IsDescribed {ι φ : Type} (parent : String) (e : Entry Node ι φ) : Prop :=
  ∀ p ∈ e.placed parent, GccXml.IsDescribed p.1 p.2.tag p.2.names

omit [DecidableEq Node] tu in
theorem Entry.isDescribed_iff {ι φ : Type} (parent : String) (e : Entry Node ι φ) :
    e.IsDescribed parent ↔ GccXml.IsDescribed parent e.element.tag e.element.names ∧
      ∀ child ∈ e.children.getD [], GccXml.IsDescribed e.element.tag child.element.tag child.element.names := by
  unfold Entry.IsDescribed Entry.placed
  rw [List.forall_mem_cons, List.forall_mem_map]

omit [DecidableEq Node] tu in
theorem Entry.isDescribed_empty {ι φ : Type} (parent : String) (e : Element Node ι φ) :
    (⟨e, none⟩ : Entry Node ι φ).IsDescribed parent ↔ GccXml.IsDescribed parent e.tag e.names := by
  rw [Entry.isDescribed_iff]
  simp

/-- The children of a function are described where its description lists them. -/
theorem functionChildren_isDescribed (fd : Node) (c : Bool) :
    (∀ child ∈ (functionChildren tu fd c).getD [],
      GccXml.IsDescribed (functionShape tu fd).tag child.element.tag child.element.names) ↔
      ((functionShape tu fd).tag ∈ unlistedArguments → functionArguments tu fd = []) ∧
        ((functionShape tu fd).tag ∈ unlistedEllipsis → (tu.tree (tu.treeType fd)).argTypesEndVoid = true) := by
  have htag := functionShape_tag_mem_functionTags tu fd
  have hchildren := argumentChildren_isDescribed tu (List.mem_cons_of_mem "FunctionType"
    (List.mem_cons_of_mem "MethodType" htag)) c (functionArguments tu fd) (tu.tree (tu.treeType fd)).argTypesEndVoid
  unfold functionChildren
  dsimp only
  split
  · -- closed at once: there is no argument and no ellipsis
    rename_i hempty
    have hboth := Bool.and_eq_true_iff.mp hempty
    have hnone : functionArguments tu fd = [] := by
      have hdrop : (tu.tree (tu.treeType fd)).typeArgTypes.drop (skippedArguments tu fd) = [] := by simpa using hboth.1
      rw [functionArguments, hdrop]
      cases (tu.tree fd).declArguments.drop (skippedArguments tu fd) <;> rfl
    simp [hnone, hboth.2]
  · exact hchildren

theorem function_entry_isDescribed (fd : Node) (c : Bool) :
    (⟨⟨(functionShape tu fd).tag, attrsOf (functionAttributes tu fd c)⟩, functionChildren tu fd c⟩ :
      SymEntry Node).IsDescribed "GCC-XML" ↔ FunctionDescribed tu fd := by
  rw [Entry.isDescribed_iff]
  dsimp only
  rw [names_attrsOf, function_isDescribed, functionChildren_isDescribed]
  exact ⟨fun ⟨⟨hname, hcontext, hmangled, hart⟩, hargs, hell⟩ => ⟨hname, hcontext, hmangled, hart, hargs, hell⟩,
    fun h => ⟨⟨h.name, h.context, h.mangled, h.artificial⟩, h.arguments, h.ellipsis⟩⟩

/-- The bases of a class are described. -/
theorem record_entry_isDescribed (rt : Node) (c : Bool) :
    (⟨⟨recordTag tu rt, attrsOf (recordAttributes tu rt c)⟩, recordChildren tu rt c⟩ :
      SymEntry Node).IsDescribed "GCC-XML" ↔
      tu.typeNameOf rt ≠ tu.globalNamespace ∧ (tu.tree rt).completeTypeP = true ∧
        (mangledName tu (tu.typeNameOf rt)).isSome := by
  have hchildren : ∀ child ∈ (recordChildren tu rt c).getD [],
      GccXml.IsDescribed (recordTag tu rt) child.element.tag child.element.names := by
    intro child hchild
    unfold recordChildren at hchild
    dsimp only at hchild
    split at hchild
    · simp at hchild
    · obtain ⟨base, -, rfl⟩ := List.mem_map.mp hchild
      exact base_isDescribed (recordTag_mem_recordTags tu rt) base _
  rw [Entry.isDescribed_iff]
  dsimp only
  rw [names_attrsOf, record_isDescribed]
  exact and_iff_left hchildren

/-- The arguments of a function type are described, and so is its ellipsis. -/
theorem functionType_entry_isDescribed {tag : String} (htag : tag ∈ ["FunctionType", "MethodType"])
    {attrs : List (String × List (SymPiece Node))} (hattrs : GccXml.IsDescribed "GCC-XML" tag (attrs.map (·.1))) (c : Bool)
    (args : List (Option (ParmDecl Node) × ArgType Node)) (endVoid : Bool) :
    (⟨⟨tag, attrs⟩, some (argumentChildren tu c args endVoid)⟩ : SymEntry Node).IsDescribed "GCC-XML" := by
  have hmem : tag ∈ "FunctionType" :: "MethodType" :: functionTags := List.mem_append_left functionTags htag
  have hlisted : ∀ tag ∈ ["FunctionType", "MethodType"], tag ∉ unlistedArguments ∧ tag ∉ unlistedEllipsis := by decide
  obtain ⟨harguments, hellipsis⟩ := hlisted tag htag
  rw [Entry.isDescribed_iff]
  refine ⟨hattrs, ?_⟩
  exact (argumentChildren_isDescribed tu hmem c args endVoid).mpr
    ⟨fun h => absurd h harguments, fun h => absurd h hellipsis⟩

theorem enumeralType_entry_isDescribed (t : Node) :
    (⟨⟨"Enumeration", attrsOf (enumeralTypeAttributes tu t)⟩, some ((tu.tree t).typeValues.map (enumValueChild tu))⟩ :
      SymEntry Node).IsDescribed "GCC-XML" ↔
      tu.typeNameOf t ≠ tu.globalNamespace ∧ ∀ tv ∈ (tu.tree t).typeValues, tu.treeCode tv.2 = .integerCst := by
  rw [Entry.isDescribed_iff]
  dsimp only
  rw [names_attrsOf, enumeralType_isDescribed, Option.getD_some, List.forall_mem_map]
  simp only [enumValue_isDescribed]

theorem mainVariantEntry_isDescribed (t : Node) (c : Bool) :
    (∀ e ∈ mainVariantEntry tu t c, e.IsDescribed "GCC-XML") ↔ MainVariantDescribed tu t := by
  unfold mainVariantEntry MainVariantDescribed
  split <;> rename_i hcode <;> simp only [hcode, Option.mem_def, Option.some.injEq, forall_eq', reduceCtorEq,
    false_implies, implies_true]
  case h_1 | h_2 | h_3 => exact record_entry_isDescribed tu t c
  case h_4 => exact iff_of_true ((Entry.isDescribed_empty _ _).mpr (arrayType_isDescribed tu t c)) trivial
  case h_5 | h_6 =>
    exact iff_of_true ((Entry.isDescribed_empty _ _).mpr (indirectType_isDescribed tu (by simp) t)) trivial
  case h_7 =>
    exact iff_of_true (functionType_entry_isDescribed tu (by decide) (functionType_isDescribed tu t c) _ _ _) trivial
  case h_8 =>
    exact iff_of_true (functionType_entry_isDescribed tu (by decide) (methodType_isDescribed tu t c) _ _ _) trivial
  case h_9 => exact iff_of_true ((Entry.isDescribed_empty _ _).mpr (offsetType_isDescribed tu t c)) trivial
  case h_10 => exact enumeralType_entry_isDescribed tu t
  all_goals
    rw [Entry.isDescribed_empty, names_attrsOf]
    exact fundamentalType_isDescribed tu t

/-- **The elements of a node are described if and only if the node is**, complete or not. -/
theorem nodeEntry_isDescribed (n : Node) (c : Bool) :
    (∀ e ∈ nodeEntry tu n c, e.IsDescribed "GCC-XML") ↔ Described tu n := by
  -- the codes of types share one branch, where a variant is always described
  have hcv : (∀ e ∈ if n = tu.typeMainVariant n then mainVariantEntry tu n c else variantEntry tu n,
      e.IsDescribed "GCC-XML") ↔ (n = tu.typeMainVariant n → MainVariantDescribed tu n) := by
    split
    · rename_i hn
      rw [mainVariantEntry_isDescribed]
      exact ⟨fun h _ => h, fun h => h hn⟩
    · rename_i hn
      refine iff_of_true (fun e he => ?_) fun h => absurd h hn
      unfold variantEntry at he
      split at he
      · cases he
        exact (Entry.isDescribed_empty _ _).mpr (cvQualifiedType_isDescribed n _ _)
      · cases he
  unfold nodeEntry Described
  split <;> rename_i hcode <;> simp only [hcode, Option.mem_def, Option.some.injEq, forall_eq']
  case h_1 =>
    split
    · rename_i hreal
      rw [Entry.isDescribed_empty, names_attrsOf, namespace_isDescribed]
      simp [hreal]
    · rename_i halias
      rw [Entry.isDescribed_empty, names_attrsOf, namespaceAlias_isDescribed]
      simp [halias]
  case h_2 => rw [Entry.isDescribed_empty, names_attrsOf, typedef_isDescribed]
  case h_3 => exact function_entry_isDescribed tu n c
  case h_4 => rw [Entry.isDescribed_empty, names_attrsOf, varDecl_isDescribed]
  case h_5 => rw [Entry.isDescribed_empty, names_attrsOf, fieldDecl_isDescribed]
  case h_22 => exact iff_of_true ((Entry.isDescribed_empty _ _).mpr (unimplemented_isDescribed tu n)) trivial
  all_goals exact hcv

/-! ## The document -/

variable {tu} {starts : List Node}

omit [DecidableEq Node] in
/-- The elements of the filled entry have the same tags and the same names. -/
theorem Entry.isDescribed_fill (parent : String) (e : SymEntry Node) (index : Option Node → Nat)
    (fileIndex : String → Nat) : (e.fill index fileIndex).IsDescribed parent ↔ e.IsDescribed parent := by
  have hnames : ∀ el : SymElement Node, (el.fill index fileIndex).names = el.names := by
    intro el
    simp [Element.names, Element.fill, Function.comp_def]
  have htag : ∀ el : SymElement Node, (el.fill index fileIndex).tag = el.tag := fun _ => rfl
  rw [Entry.isDescribed_iff, Entry.isDescribed_iff]
  cases hc : e.children with
  | none => simp [Entry.fill, hc, hnames, htag]
  | some children => simp [Entry.fill, Child.fill, hc, hnames, htag]

/-- The elements of the document in their parents are those of its entries. -/
theorem PhasesEnd.placed {s₁ s₂ : DumpInfo Node} (h : PhasesEnd tu starts s₁ s₂) :
    placed [] (finishDump s₂).file = (nodeEntries tu s₂ ++ fileEntries s₂).flatMap (Entry.placed "GCC_XML") := by
  have hroot : ∀ rest : List (OutFrag Node),
      GccXml.placed [] ((rootElement tu).openFrags 0 ++ rest) = GccXml.placed ["GCC_XML"] rest := by
    intro rest
    show [] ++ GccXml.placed ["GCC_XML"] ((rootElement tu).attrs.map Frag.ofAttr ++ rest) = _
    rw [placed_ofAttr, List.nil_append]
  rw [h.document_entries]
  show GccXml.placed [] ((rootElement tu).openFrags 0 ++ _) = _
  rw [hroot]
  show GccXml.placed ["GCC_XML"] (_ ++ [.endTag 0 "GCC_XML"]) = _
  rw [placed_entries]
  simp [GccXml.placed]

omit [DecidableEq Node] in
/-- Below an element that is not the root, the name of the root does not matter. -/
theorem Entry.forall_placed_iff {ι φ : Type} (root : String) {e : Entry Node ι φ} (h : e.element.tag ≠ "GCC_XML") :
    (∀ p ∈ e.placed "GCC_XML", GccXml.IsDescribed (if p.1 = "GCC_XML" then root else p.1) p.2.tag p.2.names) ↔
      e.IsDescribed root := by
  rw [Entry.isDescribed_iff]
  unfold Entry.placed
  rw [List.forall_mem_cons, List.forall_mem_map]
  simp [h]

/-- **Conformance, entry by entry.** -/
theorem PhasesEnd.conforms_iff {s₁ s₂ : DumpInfo Node} (h : PhasesEnd tu starts s₁ s₂) (root : String) :
    Conforms root (finishDump s₂).file ↔
      (∀ d ∈ s₂.dumped, ∀ e ∈ nodeEntry tu d.1 d.2, e.IsDescribed root) ∧
        ∀ f ∈ s₂.fileQueue, IsDescribed root "File" ["id", "name"] := by
  have htop : "GCC_XML" ∉ topLevelTags := by decide
  have hnodes : (∀ e ∈ nodeEntries tu s₂, ∀ p ∈ e.placed "GCC_XML",
      IsDescribed (if p.1 = "GCC_XML" then root else p.1) p.2.tag p.2.names) ↔
      ∀ d ∈ s₂.dumped, ∀ e ∈ nodeEntry tu d.1 d.2, e.IsDescribed root := by
    unfold nodeEntries
    rw [List.forall_mem_flatMap]
    refine forall₂_congr fun d _ => ?_
    rw [List.forall_mem_map]
    simp only [Option.mem_toList]
    refine forall₂_congr fun e he => ?_
    have htag : (e.fill s₂.indexOf s₂.fileIndexOf).element.tag ≠ "GCC_XML" := by
      intro heq
      exact htop (heq ▸ (nodeEntry_shape tu he).tag)
    rw [Entry.forall_placed_iff root htag, Entry.isDescribed_fill]
  have hfiles : (∀ e ∈ fileEntries s₂, ∀ p ∈ e.placed "GCC_XML",
      IsDescribed (if p.1 = "GCC_XML" then root else p.1) p.2.tag p.2.names) ↔
      ∀ f ∈ s₂.fileQueue, IsDescribed root "File" ["id", "name"] := by
    unfold fileEntries
    rw [List.forall_mem_map]
    refine forall₂_congr fun f _ => ?_
    have htag : (fileElement f : Element Node Nat Nat).tag ≠ "GCC_XML" := by simp [fileElement]
    rw [Entry.forall_placed_iff root htag, Entry.isDescribed_empty]
    rfl
  unfold Conforms
  rw [h.placed, List.forall_mem_flatMap, List.forall_mem_append, hnodes, hfiles]

/-- The description leaves the `File` elements out. -/
theorem not_isDescribed_file {root : String} (h : root ∈ ["GCC-XML", "GCC_XML"]) (names : List String) :
    ¬ IsDescribed root "File" names := by
  simp only [List.mem_cons, List.not_mem_nil, or_false] at h
  rcases h with rfl | rfl
  · exact not_isDescribed_of_declared_nil rfl
  · exact not_isDescribed_printedRoot "File" names

/-- No file is queued if and only if no printed node has a location. -/
theorem PhasesEnd.fileQueue_eq_nil_iff {s₁ s₂ : DumpInfo Node} (h : PhasesEnd tu starts s₁ s₂) :
    s₂.fileQueue = [] ↔ ∀ d ∈ s₂.dumped, locatedFiles tu d.1 = [] := by
  have hqueue := h.filesHeld.queue
  have hnil : s₂.fileQueue = [] ↔ printedFiles tu s₂.dumped = [] := by
    rw [hqueue]
    constructor
    · intro hzip
      have hdups : ((printedFiles tu s₂.dumped).map xmlEscapeString).eraseDups = [] := by simpa using hzip
      rw [List.eq_nil_iff_forall_not_mem]
      intro f hf
      have hmem : xmlEscapeString f ∈ ((printedFiles tu s₂.dumped).map xmlEscapeString).eraseDups :=
        List.mem_eraseDups.mpr (List.mem_map_of_mem hf)
      rw [hdups] at hmem
      exact List.not_mem_nil hmem
    · intro hnone
      rw [hnone]
      rfl
  rw [hnil, printedFiles, List.flatMap_eq_nil_iff]

/-- A node whose printing writes nothing is a variant that is referred to without a suffix. -/
theorem nodeEntry_eq_none_iff (n : Node) (c : Bool) :
    nodeEntry tu n c = none ↔ ¬ PrintsOwnId tu n ∧ idrefSuffix tu n = Quals.none := by
  by_cases hown : PrintsOwnId tu n
  · obtain ⟨e, he, -⟩ := exists_nodeEntry c hown
    simp [he, hown]
  · have helements := nodeElements_variant c hown
    unfold nodeElements at helements
    dsimp only at helements
    cases he : nodeEntry tu n c with
    | none =>
        rw [he] at helements
        by_cases hq : idrefSuffix tu n = Quals.none
        · simp [hown, hq]
        · simp [hq] at helements
    | some e =>
        rw [he] at helements
        by_cases hq : idrefSuffix tu n = Quals.none
        · simp [hq, Entry.elements] at helements
        · simp [hq]

/-- A node that prints nothing prints no location. -/
theorem locatedFiles_of_nodeEntry_none {n : Node} {c : Bool} (h : nodeEntry tu n c = none) : locatedFiles tu n = [] := by
  have hshown := (xmlDumpTreeNode_locates tu n c).shown "file" (by simp)
  rw [fragsOf_xmlDumpTreeNode, h, entryFrags_none, fileRefs_nil] at hshown
  exact List.map_eq_nil_iff.mp hshown.symm

/-- The document conforms, its root taken for the root of the description. -/
theorem PhasesEnd.conforms_describedRoot_iff {s₁ s₂ : DumpInfo Node} (h : PhasesEnd tu starts s₁ s₂) :
    Conforms "GCC-XML" (finishDump s₂).file ↔
      ∀ n c, Reached tu starts n c → Described tu n ∧ locatedFiles tu n = [] := by
  have hfile := not_isDescribed_file (List.mem_cons_self (a := "GCC-XML")) ["id", "name"]
  have hfiles : (∀ f ∈ s₂.fileQueue, IsDescribed "GCC-XML" "File" ["id", "name"]) ↔ s₂.fileQueue = [] := by
    rw [List.eq_nil_iff_forall_not_mem]
    exact forall₂_congr fun f hf => iff_of_false hfile id
  rw [h.conforms_iff, hfiles, h.fileQueue_eq_nil_iff, ← h.forall_dumped_iff, ← forall₂_and]
  simp only [nodeEntry_isDescribed]

/-- The document conforms by the name of its root only if it has no element but the root. -/
theorem PhasesEnd.conforms_printedRoot_iff {s₁ s₂ : DumpInfo Node} (h : PhasesEnd tu starts s₁ s₂) :
    Conforms "GCC_XML" (finishDump s₂).file ↔
      ∀ n c, Reached tu starts n c → ¬ PrintsOwnId tu n ∧ idrefSuffix tu n = Quals.none := by
  rw [h.conforms_iff, ← h.forall_dumped_iff]
  constructor
  · rintro ⟨hnodes, -⟩ d hd
    rw [← nodeEntry_eq_none_iff d.1 d.2, Option.eq_none_iff_forall_not_mem]
    intro e he
    exact not_isDescribed_printedRoot _ _ ((Entry.isDescribed_iff "GCC_XML" e).mp (hnodes d hd e he)).1
  · intro hsilent
    have hnone : ∀ d ∈ s₂.dumped, nodeEntry tu d.1 d.2 = none := fun d hd =>
      (nodeEntry_eq_none_iff d.1 d.2).mpr (hsilent d hd)
    have hqueue : s₂.fileQueue = [] :=
      h.fileQueue_eq_nil_iff.mpr fun d hd => locatedFiles_of_nodeEntry_none (hnone d hd)
    refine ⟨fun d hd e he => ?_, fun f hf => ?_⟩
    · rw [hnone d hd] at he
      cases he
    · rw [hqueue] at hf
      exact absurd hf List.not_mem_nil

/-- **When the document conforms to its description.** Every run ends. The root that is printed is not the root of the
    description, so by its name no element but the root may stand in the document. With the one root taken for the
    other, the document conforms if and only if every node that is reached is described, and no location is printed
    of any. -/
theorem document_conforms_iff (tu : TranslationUnit Node) (starts : List Node) :
    ∃ s, (∀ fuel, 2 * tu.nodes.length ≤ fuel → doXmlOutput tu starts fuel = some s) ∧
      (Conforms "GCC_XML" s.file ↔
        ∀ n c, Reached tu starts n c → ¬ PrintsOwnId tu n ∧ idrefSuffix tu n = Quals.none) ∧
      (Conforms "GCC-XML" s.file ↔ ∀ n c, Reached tu starts n c → Described tu n ∧ locatedFiles tu n = []) := by
  obtain ⟨s₁, s₂, h, -⟩ := exists_phasesEnd tu starts
  exact ⟨finishDump s₂, fun fuel hf => (h.doXmlOutput hf).2, h.conforms_printedRoot_iff, h.conforms_describedRoot_iff⟩

end

/-! ### A variable of an incomplete class

The unit is `struct S; extern S p;`. -/

/-- The nodes of the example: the global namespace, `p`, the class `S` and its declaration. -/
inductive IncompleteStructNode
  | globalNamespace | p | s | declS
  deriving DecidableEq

/-- The unit, with its nodes in the order of their addresses. -/
def incompleteStruct : TranslationUnit IncompleteStructNode where
  globalNamespace := .globalNamespace
  tree
    | .globalNamespace => { code := .namespaceDecl, declName := some "::", hasDeclAssemblerNameP := true
                            declAssemblerName := some "_Z2::" }
    | .p => { code := .varDecl, declName := some "p", declContext := some .globalNamespace, treeType := some .s
              declSourceFile := "a.h", declExternal := true, hasDeclAssemblerNameP := true
              declAssemblerName := some "p" }
    | .s => { code := .recordType, typeName := some .declS, completeTypeP := false }
    | .declS => { code := .typeDecl, declName := some "S", declContext := some .globalNamespace, treeType := some .s
                  declSourceFile := "a.h", declImplicitTypedefP := true, declArtificial := true
                  hasDeclAssemblerNameP := true, declAssemblerName := some "1S" }
  cplusDemangle name := if name = "_Z2::" then some "::" else if name = "1S" then some "S" else none
  nodes := [.globalNamespace, .p, .s, .declS]
  mem_nodes n := by cases n <;> decide
  address
    | .globalNamespace => 0
    | .p => 1
    | .s => 2
    | .declS => 3
  nodes_sorted := by decide
  rank
    | .declS => 1
    | _ => 0
  rank_lt n := by cases n <;> decide

/-- The document of `incompleteStruct` conforms under neither name of the root: `S` has an attribute `incomplete`, which
    the description does not declare for a `Struct`. -/
theorem not_conforms_incompleteStruct :
    ∃ s, doXmlOutput incompleteStruct [.p] 8 = some s ∧ ¬ Conforms "GCC_XML" s.file ∧ ¬ Conforms "GCC-XML" s.file ∧
      ∃ p ∈ placed [] s.file, p.2.tag = "Struct" ∧ "incomplete" ∈ p.2.names ∧
        ∀ e ∈ doXmlDocument.declared "GCC-XML" "Struct", "incomplete" ∉ e.attributes.map (·.name) := by
  exact ⟨_, rfl, by decide, by decide, by decide⟩

end GccXml
