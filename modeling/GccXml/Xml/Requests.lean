import GccXml.Xml.Attributes

namespace GccXml

/-! # `Xml.Requests` — what printing a node requests

Every call of `xml_add_node` in a printing function passes 0, 1 or `dn->complete`. The table `requestTable` lists, for
each tree code, what is requested with which of them, and `mem_issues_iff` shows that the table is right.

The table is read off the source by hand, and the theorem checks it against the printing functions: what a function
requests is computed from its log by the lemmas of `Xml.Attributes`, in the order of the text, and compared with the
three lists of the table, in which the order does not matter.

From the table follow the facts that the runs need: which requests of a node depend on its flag, that a complete node
requests at least what an incomplete one does, and that the only complete requests of an incomplete node are those for
the methods that it overrides. -/

section
variable {Node : Type} [DecidableEq Node] (tu : TranslationUnit Node)

/-- The requests that printing `n` issues: the calls of `xml_add_node` with their `complete` argument. -/
def issues (n : Node) (complete : Bool) : List (Node × Bool) := requestsOf (xmlDumpTreeNode tu n complete)

variable {tu} in
theorem mem_issues {n m : Node} {complete c : Bool} :
    (m, c) ∈ issues tu n complete ↔ .addNode m c ∈ (xmlDumpTreeNode tu n complete).log := by
  simp only [issues, requestsOf, List.mem_filterMap]
  constructor
  · rintro ⟨a, ha, he⟩
    cases a <;> simp [Action.request?] at he
    rwa [← he.1, ← he.2]
  · exact fun h => ⟨_, h, rfl⟩

/-! ## The table -/

/-- The requests of a printing function, by the argument they pass. -/
structure RequestTable (Node : Type) where
  /-- Requests with `dn->complete`. -/
  own : List Node := []
  /-- Requests with 0. -/
  incomplete : List Node := []
  /-- Requests with 1. -/
  overrides : List Node := []
  /-- Requests with 1 that only a complete node makes. -/
  members : List Node := []

/-- The arguments that get an `Argument` element, each with its `PARM_DECL` if it has one. -/
def printedArguments : List (ParmDecl Node) → List (ArgType Node) → List (Option (ParmDecl Node) × ArgType Node)
  | _, [] => []
  | [], tl :: tls => (none, tl) :: printedArguments [] tls
  | pd :: pds, tl :: tls =>
      if pd.declArtificial then printedArguments pds tls else (some pd, tl) :: printedArguments pds tls

/-- The types of these arguments. -/
def printedArgumentTypes (pds : List (ParmDecl Node)) (tls : List (ArgType Node)) : List Node :=
  (printedArguments pds tls).map fun a => argumentType tu a.1 a.2

/-- The methods in the `overrides` attribute of the function `fd`, if it gets one. -/
def printedOverrides (fd : Node) : List Node :=
  if (functionShape tu fd).doVirtual && (tu.tree fd).declVirtualP then overriddenMethods tu fd else []

/-- The arguments that `xml_output_function_decl` loops over. -/
def functionArguments (fd : Node) : List (Option (ParmDecl Node) × ArgType Node) :=
  let argType := (tu.tree (tu.treeType fd)).typeArgTypes.drop (skippedArguments tu fd)
  printedArguments ((tu.tree fd).declArguments.drop (skippedArguments tu fd)) argType

/-- The types that printing the function `fd` refers to. -/
def functionTypes (fd : Node) : List Node :=
  (if (functionShape tu fd).doReturns then [tu.treeType (tu.treeType fd)] else [])
    ++ (tu.tree (tu.treeType fd)).typeRaisesExceptions.getD []
    ++ (functionArguments tu fd).map fun a => argumentType tu a.1 a.2

/-- The table of the type `t` when it is its own main variant. -/
def mainVariantTable (t : Node) : RequestTable Node :=
  match tu.treeCode t with
  | .unionType | .qualUnionType | .recordType =>
      { incomplete := contextTargets tu (tu.typeNameOf t) ++ listedFriends tu (tu.tree t).befriendingClasses
        members := if (tu.tree t).completeTypeP then
          listedMembers tu t ++ ((tu.tree t).typeBinfo.getD []).map (·.type) else [] }
  | .arrayType => { own := typeTargets tu (tu.treeType t) }
  | .pointerType | .referenceType => { incomplete := typeTargets tu (tu.treeType t) }
  | .functionType =>
      { own := typeTargets tu (tu.treeType t)
          ++ (printedArgumentTypes tu [] (tu.tree t).typeArgTypes).flatMap (typeTargets tu) }
  | .methodType =>
      { own := (tu.tree t).typeMethodBasetype.getD t :: typeTargets tu (tu.treeType t)
          ++ (printedArgumentTypes tu [] ((tu.tree t).typeArgTypes.drop 1)).flatMap (typeTargets tu) }
  | .offsetType => { own := (tu.tree t).typeOffsetBasetype.getD t :: typeTargets tu (tu.treeType t) }
  | .enumeralType => { incomplete := contextTargets tu (tu.typeNameOf t) }
  | _ => {}

/-- **The requests of printing `n`**, by tree code. -/
def requestTable (n : Node) : RequestTable Node :=
  match tu.treeCode n with
  | .namespaceDecl =>
      if (tu.tree n).declNamespaceAlias = none then
        { incomplete := contextTargets tu n, members := tu.allDecls n }
      else { incomplete := contextTargets tu n ++ [realNamespace tu n] }
  | .typeDecl => { own := typeTargets tu (tu.typedefTarget n), incomplete := contextTargets tu n }
  | .functionDecl =>
      { own := (functionTypes tu n).flatMap (typeTargets tu)
        incomplete := contextTargets tu n ++ listedFriends tu (tu.tree n).befriendingClasses
        overrides := printedOverrides tu n }
  | .varDecl => { own := typeTargets tu (tu.treeType n), incomplete := contextTargets tu n }
  | .fieldDecl =>
      { own := typeTargets tu ((tu.tree n).declBitFieldType.getD (tu.treeType n))
        incomplete := contextTargets tu n }
  | .unionType | .qualUnionType | .recordType | .arrayType | .pointerType | .referenceType | .functionType
  | .methodType | .offsetType | .enumeralType | .langType | .integerType | .booleanType | .realType
  | .voidType | .complexType =>
      if n = tu.typeMainVariant n then mainVariantTable tu n
      else { own := tu.typeMainVariant n :: (tu.tree n).typeName.toList }
  | _ => {}

/-- The list of requests that a table stands for, for a node with the flag `complete`. -/
def RequestTable.requests (t : RequestTable Node) (complete : Bool) : List (Node × Bool) :=
  t.own.map (·, complete) ++ t.incomplete.map (·, false) ++ t.overrides.map (·, true)
    ++ if complete then t.members.map (·, true) else []

/-! ## The table is right -/

theorem requestsOf_xmlOutputArgument (pd : Option (ParmDecl Node)) (tl : ArgType Node) (c : Bool) :
    requestsOf (xmlOutputArgument tu pd tl c) =
      if pd.any (·.declArtificial) then [] else (typeTargets tu (argumentType tu pd tl)).map (·, c) := by
  cases h : pd.any (·.declArtificial) <;> simp [xmlOutputArgument, argumentAttributes, h]

theorem requestsOf_xmlOutputArguments (pds : List (ParmDecl Node)) (tls : List (ArgType Node)) (c : Bool) :
    requestsOf (xmlOutputArguments tu pds tls c) =
      ((printedArgumentTypes tu pds tls).flatMap (typeTargets tu)).map (·, c) := by
  induction tls generalizing pds with
  | nil => cases pds <;> rfl
  | cons tl tls ih =>
      cases pds with
      | nil =>
          simp only [xmlOutputArguments, requestsOf_bind, ih, requestsOf_xmlOutputArgument]
          simp [printedArgumentTypes, printedArguments]
      | cons pd pds =>
          simp only [xmlOutputArguments, requestsOf_bind, ih, requestsOf_xmlOutputArgument]
          cases h : pd.declArtificial <;> simp [printedArgumentTypes, printedArguments, h]

omit [DecidableEq Node] in
theorem mem_requests {t : RequestTable Node} {c d : Bool} {m : Node} :
    (m, d) ∈ t.requests c ↔ (m ∈ t.own ∧ d = c) ∨ (m ∈ t.incomplete ∧ d = false) ∨
      (m ∈ t.overrides ∧ d = true) ∨ (m ∈ t.members ∧ c = true ∧ d = true) := by
  cases c <;> simp [RequestTable.requests, eq_comm]


theorem requestsOf_xmlOutputNamespaceDecl (n : Node) (c : Bool) :
    requestsOf (xmlOutputNamespaceDecl tu n c) =
      if (tu.tree n).declNamespaceAlias = none then
        (contextTargets tu n).map (·, false) ++ if c then (tu.allDecls n).map (·, true) else []
      else (contextTargets tu n ++ [realNamespace tu n]).map (·, false) := by
  unfold xmlOutputNamespaceDecl
  split <;> simp [namespaceAttributes, namespaceAliasAttributes]

theorem requestsOf_xmlOutputTypedef (n : Node) (c : Bool) :
    requestsOf (xmlOutputTypedef tu n c) =
      (typeTargets tu (tu.typedefTarget n)).map (·, c) ++ (contextTargets tu n).map (·, false) := by
  simp [xmlOutputTypedef, typedefAttributes]

theorem requestsOf_xmlOutputVarDecl (n : Node) (c : Bool) :
    requestsOf (xmlOutputVarDecl tu n c) =
      (typeTargets tu (tu.treeType n)).map (·, c) ++ (contextTargets tu n).map (·, false) := by
  simp [xmlOutputVarDecl, varDeclAttributes]

theorem requestsOf_xmlOutputFieldDecl (n : Node) (c : Bool) :
    requestsOf (xmlOutputFieldDecl tu n c) =
      (typeTargets tu ((tu.tree n).declBitFieldType.getD (tu.treeType n))).map (·, c) ++
        (contextTargets tu n).map (·, false) := by
  simp [xmlOutputFieldDecl, fieldDeclAttributes]

theorem requestsOf_xmlOutputFunctionDecl (n : Node) (c : Bool) :
    requestsOf (xmlOutputFunctionDecl tu n c) =
      (if (functionShape tu n).doReturns then (typeTargets tu (tu.treeType (tu.treeType n))).map (·, c) else [])
        ++ (printedOverrides tu n).map (·, true)
        ++ (((tu.tree (tu.treeType n)).typeRaisesExceptions.getD []).flatMap (typeTargets tu)).map (·, c)
        ++ (contextTargets tu n ++ listedFriends tu (tu.tree n).befriendingClasses).map (·, false)
        ++ ((functionArguments tu n).flatMap fun a => typeTargets tu (argumentType tu a.1 a.2)).map (·, c) := by
  have hargs : requestsOf (xmlOutputFunctionDecl tu n c) = requestsOf (functionAttributes tu n c) ++
      ((functionArguments tu n).flatMap fun a => typeTargets tu (argumentType tu a.1 a.2)).map (·, c) := by
    unfold xmlOutputFunctionDecl functionArguments
    dsimp only
    rw [requestsOf_bind, requestsOf_emit, requestsOf_bind]
    split
    · rename_i h
      rw [List.isEmpty_iff.mp (Bool.and_eq_true_iff.mp h).1]
      simp [printedArguments]
    · simp [requestsOf_xmlOutputArguments, printedArgumentTypes, List.flatMap_map]
  have hoverrides : (printedOverrides tu n).map (·, true) =
      if (functionShape tu n).doVirtual then
        if (tu.tree n).declVirtualP then (overriddenMethods tu n).map (·, true) else []
      else [] := by
    unfold printedOverrides
    cases (functionShape tu n).doVirtual <;> cases (tu.tree n).declVirtualP <;> rfl
  rw [hargs, hoverrides]
  simp [functionAttributes, List.map_flatMap]

theorem requestsOf_xmlOutputRecordType (n : Node) (c : Bool) (r : Node × Bool) :
    r ∈ requestsOf (xmlOutputRecordType tu n c) ↔
      r ∈ (contextTargets tu (tu.typeNameOf n) ++ listedFriends tu (tu.tree n).befriendingClasses).map (·, false)
        ++ if c && (tu.tree n).completeTypeP then
            (listedMembers tu n ++ ((tu.tree n).typeBinfo.getD []).map (·.type)).map (·, true)
          else [] := by
  have hbases : ∀ bases : List (BaseBinfo Node), requestsOf (do
      emit (.endStartTag : SymFrag Node)
      Trace.each bases (xmlOutputBase tu)
      emit (.endTag 2 (recordTag tu n))) = bases.map fun base => (base.type, true) := by
    intro bases
    simp [xmlOutputBase, baseAttributes, List.map_eq_flatMap]
  have hwhole : requestsOf (xmlOutputRecordType tu n c) = requestsOf (recordAttributes tu n c) ++
      ((printedBases tu n c).getD []).map fun base => (base.type, true) := by
    unfold xmlOutputRecordType
    dsimp only
    rw [requestsOf_bind, requestsOf_emit, requestsOf_bind]
    split
    · rename_i h
      rw [List.isEmpty_iff.mp h]
      simp
    · rw [hbases]; rfl
  rw [hwhole]
  cases c <;> cases hct : (tu.tree n).completeTypeP <;> cases hb : (tu.tree n).typeBinfo <;>
    simp [recordAttributes, printedBases, hct, hb, Function.comp_def]

theorem requestsOf_xmlOutputFunctionType (n : Node) (c : Bool) :
    requestsOf (xmlOutputFunctionType tu n c) =
      (typeTargets tu (tu.treeType n)
        ++ (printedArgumentTypes tu [] (tu.tree n).typeArgTypes).flatMap (typeTargets tu)).map (·, c) := by
  simp [xmlOutputFunctionType, functionTypeAttributes, requestsOf_xmlOutputArguments]

theorem requestsOf_xmlOutputMethodType (n : Node) (c : Bool) :
    requestsOf (xmlOutputMethodType tu n c) =
      ((tu.tree n).typeMethodBasetype.getD n :: typeTargets tu (tu.treeType n)
        ++ (printedArgumentTypes tu [] ((tu.tree n).typeArgTypes.drop 1)).flatMap (typeTargets tu)).map (·, c) := by
  simp [xmlOutputMethodType, methodTypeAttributes, requestsOf_xmlOutputArguments]

theorem requestsOf_xmlOutputIndirectType (tag : String) (n : Node) :
    requestsOf (xmlOutputIndirectType tu tag n) = (typeTargets tu (tu.treeType n)).map (·, false) := by
  simp [xmlOutputIndirectType, indirectTypeAttributes]

theorem requestsOf_xmlOutputOffsetType (n : Node) (c : Bool) :
    requestsOf (xmlOutputOffsetType tu n c) =
      ((tu.tree n).typeOffsetBasetype.getD n :: typeTargets tu (tu.treeType n)).map (·, c) := by
  simp [xmlOutputOffsetType, offsetTypeAttributes]

theorem requestsOf_xmlOutputArrayType (n : Node) (c : Bool) :
    requestsOf (xmlOutputArrayType tu n c) = (typeTargets tu (tu.treeType n)).map (·, c) := by
  simp [xmlOutputArrayType, arrayTypeAttributes]

omit [DecidableEq Node] in
theorem requestsOf_xmlOutputUnimplemented (t : Node) (dn : Option Node) (function : Option String) :
    requestsOf (xmlOutputUnimplemented tu t dn function) = [] := by
  cases dn <;> simp [xmlOutputUnimplemented, unimplementedAttributes]

omit [DecidableEq Node] in
theorem requestsOf_xmlOutputEnumValue (purpose : Option String) (value : Node) :
    requestsOf (xmlOutputEnumValue tu purpose value) = [] := by
  unfold xmlOutputEnumValue
  split <;> simp [enumValueAttributes, requestsOf_xmlOutputUnimplemented]

theorem requestsOf_xmlOutputEnumeralType (n : Node) :
    requestsOf (xmlOutputEnumeralType tu n) = (contextTargets tu (tu.typeNameOf n)).map (·, false) := by
  simp [xmlOutputEnumeralType, enumeralTypeAttributes, requestsOf_xmlOutputEnumValue]

omit [DecidableEq Node] in
theorem requestsOf_xmlOutputFundamentalType (n : Node) : requestsOf (xmlOutputFundamentalType tu n) = [] := by
  cases h : (tu.tree n).typeName <;> simp [xmlOutputFundamentalType, fundamentalTypeAttributes, h]

theorem requestsOf_xmlOutputVariant (n : Node) (c : Bool) :
    requestsOf (xmlOutputVariant tu n c) = (idrefTargets tu n).map (·, c) := by
  simp [xmlOutputVariant, cvQualifiedTypeAttributes]

omit [DecidableEq Node] in
/-- A request with its flag is in a list of requests that all carry the flag `c`. -/
theorem mem_flagged {l : List Node} {m : Node} {c d : Bool} : (m, d) ∈ l.map (·, c) ↔ m ∈ l ∧ d = c := by
  simp [eq_comm]

omit [DecidableEq Node] in
theorem mem_flagged_if {l : List Node} {p c d : Bool} {m : Node} :
    (m, d) ∈ (if p then l.map (·, c) else []) ↔ m ∈ l ∧ p = true ∧ d = c := by
  cases p <;> simp [eq_comm]

/-- The table of a main variant is right. -/
theorem mem_requestsOf_xmlOutputMainVariant (n m : Node) (c d : Bool) :
    (m, d) ∈ requestsOf (xmlOutputMainVariant tu n c) ↔ (m, d) ∈ (mainVariantTable tu n).requests c := by
  rw [mem_requests]
  unfold xmlOutputMainVariant mainVariantTable
  split <;> rename_i hcode <;> try simp only [hcode]
  case h_1 | h_2 | h_3 =>
    rw [requestsOf_xmlOutputRecordType, List.mem_append, mem_flagged, mem_flagged_if]
    cases (tu.tree n).completeTypeP <;> simp
  case h_4 => rw [requestsOf_xmlOutputArrayType, mem_flagged]; simp
  case h_5 | h_6 =>
    show (m, d) ∈ requestsOf (xmlOutputIndirectType tu _ n) ↔ _
    rw [requestsOf_xmlOutputIndirectType, mem_flagged]; simp
  case h_7 => rw [requestsOf_xmlOutputFunctionType, mem_flagged]; simp
  case h_8 => rw [requestsOf_xmlOutputMethodType, mem_flagged]; simp
  case h_9 => rw [requestsOf_xmlOutputOffsetType, mem_flagged]; simp
  case h_10 => rw [requestsOf_xmlOutputEnumeralType, mem_flagged]; simp
  case h_17 => simp
  all_goals rw [requestsOf_xmlOutputFundamentalType]; simp

/-- **The table is right**: it lists what printing a node requests. -/
theorem mem_issues_iff (n m : Node) (c d : Bool) :
    (m, d) ∈ issues tu n c ↔ (m, d) ∈ (requestTable tu n).requests c := by
  rw [mem_requests]
  unfold issues xmlDumpTreeNode requestTable
  split <;> rename_i hcode <;> try simp only [hcode]
  case h_1 =>
    rw [requestsOf_xmlOutputNamespaceDecl]
    split
    · rw [List.mem_append, mem_flagged, mem_flagged_if]; simp
    · rw [mem_flagged]; simp
  case h_2 => rw [requestsOf_xmlOutputTypedef, List.mem_append, mem_flagged, mem_flagged]; simp
  case h_3 =>
    have hreturns : ∀ {l : List Node} {p : Bool}, (m, d) ∈ (if p then l.map (·, c) else []) ↔
        (m ∈ l ∧ p = true) ∧ d = c := by intro l p; rw [mem_flagged_if, and_assoc]
    rw [requestsOf_xmlOutputFunctionDecl]
    simp only [List.mem_append, mem_flagged, hreturns, functionTypes, List.flatMap_append, List.flatMap_map]
    cases (functionShape tu n).doReturns <;>
      simp only [if_true, List.flatMap_singleton, List.not_mem_nil] <;> tauto
  case h_4 => rw [requestsOf_xmlOutputVarDecl, List.mem_append, mem_flagged, mem_flagged]; simp
  case h_5 => rw [requestsOf_xmlOutputFieldDecl, List.mem_append, mem_flagged, mem_flagged]; simp
  case h_22 => rw [requestsOf_xmlOutputUnimplemented]; simp
  all_goals
    show (m, d) ∈ requestsOf (xmlOutputCvQualifiedType tu n c) ↔ _
    unfold xmlOutputCvQualifiedType
    split
    · rw [mem_requestsOf_xmlOutputMainVariant, mem_requests]
    · rw [requestsOf_xmlOutputVariant, mem_flagged]; simp [idrefTargets]

/-! ## Consequences -/

variable {tu}

/-- A complete node requests everything that it would request as an incomplete one, and as complete what it would
    request as complete. -/
theorem issues_mono {n m : Node} {d : Bool} (h : (m, d) ∈ issues tu n false) :
    ∃ d', (d = true → d' = true) ∧ (m, d') ∈ issues tu n true := by
  rw [mem_issues_iff, mem_requests] at h
  simp only [mem_issues_iff, mem_requests]
  rcases h with ⟨hm, rfl⟩ | ⟨hm, rfl⟩ | ⟨hm, rfl⟩ | ⟨_, hc, _⟩
  · exact ⟨true, by simp, Or.inl ⟨hm, rfl⟩⟩
  · exact ⟨false, by simp, Or.inr (Or.inl ⟨hm, rfl⟩)⟩
  · exact ⟨true, by simp, Or.inr (Or.inr (Or.inl ⟨hm, rfl⟩))⟩
  · exact absurd hc (by simp)

/-- A node printed as incomplete makes a complete request only for its `overrides` attribute. -/
theorem mem_issues_false_true {n m : Node} :
    (m, true) ∈ issues tu n false ↔ m ∈ (requestTable tu n).overrides := by
  rw [mem_issues_iff, mem_requests]
  simp

theorem overrides_mainVariantTable (n : Node) : (mainVariantTable tu n).overrides = [] := by
  unfold mainVariantTable
  split <;> rfl

/-- Only functions make complete requests whatever their own flag is. -/
theorem overrides_requestTable (n : Node) :
    (requestTable tu n).overrides = if tu.treeCode n = .functionDecl then printedOverrides tu n else [] := by
  by_cases hfn : tu.treeCode n = .functionDecl
  · simp [requestTable, hfn]
  · rw [if_neg hfn]
    unfold requestTable
    split
    case h_1 => split <;> rfl
    case h_3 hcode => exact absurd hcode hfn
    case h_2 | h_4 | h_5 | h_22 => rfl
    all_goals
      split
      · exact overrides_mainVariantTable n
      · rfl

end

end GccXml
