import GccXml.Xml.TemplateParm

namespace GccXml

/-! # `Xml.Tree` — the translation unit that `xml.c` walks

GCC hands `xml.c` a graph of tree nodes. Each node is a record of the fields that `xml.c` reads, named after the
accessor macros; a field that the node's code does not have keeps its default. Lists that GCC links through
`TREE_CHAIN` (fields, methods, arguments, attributes, friends) are Lean lists, and strings that GCC computes for
`xml.c` (the text of an expression, an assembler name) are fields as well. -/

/-! ## Tree codes -/

/-- The kind of a tree code, as `DECL_P` and `TYPE_P` distinguish them. -/
inductive TreeCodeClass
  | declaration | type | otherClass
  deriving DecidableEq, Repr

/-- The tree codes that `xml_add_node`, `xml_dump_tree_node` and the functions they call tell apart. -/
inductive TreeCode
  | namespaceDecl | typeDecl | functionDecl | varDecl | fieldDecl | constDecl | templateDecl
  | usingDecl | resultDecl
  | unionType | qualUnionType | recordType | arrayType | pointerType | referenceType | functionType
  | methodType | offsetType | enumeralType | langType | integerType | booleanType | realType | voidType
  | complexType | typenameType | templateTypeParm | vectorType
  | treeList | overload | integerCst
  /-- Any other code, with its class and its `tree_code_name`. -/
  | other (cls : TreeCodeClass) (name : String)
  deriving DecidableEq, Repr

namespace TreeCode

/-- `TREE_CODE_CLASS`. -/
def codeClass : TreeCode → TreeCodeClass
  | namespaceDecl | typeDecl | functionDecl | varDecl | fieldDecl | constDecl | templateDecl
  | usingDecl | resultDecl => .declaration
  | unionType | qualUnionType | recordType | arrayType | pointerType | referenceType | functionType
  | methodType | offsetType | enumeralType | langType | integerType | booleanType | realType | voidType
  | complexType | typenameType | templateTypeParm | vectorType => .type
  | treeList | overload | integerCst => .otherClass
  | other cls _ => cls

/-- `tree_code_name`. -/
def codeName : TreeCode → String
  | namespaceDecl => "namespace_decl" | typeDecl => "type_decl" | functionDecl => "function_decl"
  | varDecl => "var_decl" | fieldDecl => "field_decl" | constDecl => "const_decl"
  | templateDecl => "template_decl" | usingDecl => "using_decl" | resultDecl => "result_decl"
  | unionType => "union_type" | qualUnionType => "qual_union_type" | recordType => "record_type"
  | arrayType => "array_type" | pointerType => "pointer_type" | referenceType => "reference_type"
  | functionType => "function_type" | methodType => "method_type" | offsetType => "offset_type"
  | enumeralType => "enumeral_type" | langType => "lang_type" | integerType => "integer_type"
  | booleanType => "boolean_type" | realType => "real_type" | voidType => "void_type"
  | complexType => "complex_type" | typenameType => "typename_type"
  | templateTypeParm => "template_type_parm" | vectorType => "vector_type"
  | treeList => "tree_list" | overload => "overload" | integerCst => "integer_cst"
  | other _ name => name

end TreeCode

/-! ## Parts of a node -/

/-- The cv-qualifiers of a type, as `cp_type_quals` reports them. -/
structure Quals where
  isConst : Bool := false
  isVolatile : Bool := false
  isRestrict : Bool := false
  deriving DecidableEq, Repr

namespace Quals

/-- No qualifier at all. -/
def none : Quals := {}

/-- The qualifiers of `p` that are not in `q`. -/
def diff (p q : Quals) : Quals :=
  ⟨p.isConst && !q.isConst, p.isVolatile && !q.isVolatile, p.isRestrict && !q.isRestrict⟩

/-- The qualifiers in `p` or in `q`. -/
def union (p q : Quals) : Quals :=
  ⟨p.isConst || q.isConst, p.isVolatile || q.isVolatile, p.isRestrict || q.isRestrict⟩

/-- Every qualifier of `p` is in `q`. -/
def Subset (p q : Quals) : Prop :=
  (p.isConst → q.isConst) ∧ (p.isVolatile → q.isVolatile) ∧ (p.isRestrict → q.isRestrict)

instance (p q : Quals) : Decidable (Subset p q) := inferInstanceAs (Decidable (_ ∧ _ ∧ _))

theorem diff_union_of_subset {p q : Quals} (h : Subset q p) : (p.diff q).union q = p := by
  obtain ⟨hc, hv, hr⟩ := h
  obtain ⟨pc, pv, pr⟩ := p
  obtain ⟨qc, qv, qr⟩ := q
  revert hc hv hr
  cases pc <;> cases pv <;> cases pr <;> cases qc <;> cases qv <;> cases qr <;> decide

end Quals

/-- An `INTEGER_CST`: the low word, read as unsigned, and the high word, read as signed. -/
structure IntCst where
  low : Nat := 0
  high : Int := 0
  deriving DecidableEq, Repr

/-- One `__attribute__`: its name and its arguments, `none` for an argument that is not a `STRING_CST`. -/
structure Attribute where
  purpose : String
  args : List (Option String) := []
  deriving DecidableEq, Repr

/-- `DECL_INITIAL`: `error_mark_node` or an expression with the text `expr_as_string` gives it. -/
inductive Initial
  | errorMark
  | expr (text : String)
  deriving DecidableEq, Repr

/-- The body of a function, as `xml_print_endline_attribute` looks at it; a line is `none` for an expression
    without a location. -/
inductive Body
  | expr (line : Option Nat)
  | statementList (lines : List (Option Nat))
  | other
  deriving DecidableEq, Repr

inductive Access
  | isPublic | isProtected | isPrivate
  deriving DecidableEq, Repr

/-- One base class of a `BINFO`. -/
structure BaseBinfo (Node : Type) where
  type : Node
  access : Access := .isPublic
  isVirtual : Bool := false
  offset : IntCst := {}

/-- One `TREE_LIST` of `TYPE_ARG_TYPES`: the type of a parameter and the text of its default. -/
structure ArgType (Node : Type) where
  value : Node
  purpose : Option String := none

/-- One `PARM_DECL` of `DECL_ARGUMENTS`. -/
structure ParmDecl (Node : Type) where
  declName : Option String := none
  treeType : Option Node := none
  declByReference : Bool := false
  declArtificial : Bool := false
  declSourceFile : String := ""
  declSourceLine : Nat := 0
  declAttributes : List Attribute := []

/-- One binding of an identifier in a namespace (`cxx_binding`). -/
structure CxxBinding (Node : Type) where
  scope : Node
  value : Option Node := none
  type : Option Node := none

/-- One operator of `operator_name_info` and `assignment_operator_name_info`: the identifiers
    `ansi_opname` and `ansi_assopname` with the spelling of each. -/
structure OperatorName where
  opname : Option String := none
  name : String := ""
  assopname : Option String := none
  assignName : String := ""

/-! ## Nodes -/

/-- A tree node: the fields that `xml.c` reads. -/
structure TreeNode (Node : Type) where
  code : TreeCode
  treeType : Option Node := none
  /-- `TREE_VALUE` of a `TREE_LIST`. -/
  treeValue : Option Node := none
  /-- The functions of an `OVERLOAD`, along `OVL_NEXT`. -/
  ovlFunctions : List Node := []
  intCst : IntCst := {}
  -- types
  typeName : Option Node := none
  /-- `TYPE_MAIN_VARIANT`, when that is another node. -/
  mainVariant : Option Node := none
  cpTypeQuals : Quals := {}
  typeReadonly : Bool := false
  typeVolatile : Bool := false
  typeContext : Option Node := none
  completeTypeP : Bool := true
  /-- `TYPE_SIZE`, when it is an `INTEGER_CST`. -/
  typeSize : Option IntCst := none
  typeAlign : Nat := 8
  typeAttributes : List Attribute := []
  typeFields : List Node := []
  typeMethods : List Node := []
  typeBinfo : Option (List (BaseBinfo Node)) := none
  typePolymorphicP : Bool := false
  /-- `TYPE_PTRMEMFUNC_FN_TYPE` of a record with `TYPE_PTRMEMFUNC_P`. -/
  typePtrmemfuncFnType : Option Node := none
  classtypeIsTemplate : Bool := false
  classtypeDeclaredClass : Bool := false
  classtypePureVirtuals : Bool := false
  typeAnonymousP : Bool := false
  typeTiArgs : TypeTree := .null
  /-- `TYPE_ARG_TYPES` up to its end, and whether that end is `void_list_node`. -/
  typeArgTypes : List (ArgType Node) := []
  argTypesEndVoid : Bool := true
  /-- `TYPE_RAISES_EXCEPTIONS`; `throw()` is `some []`. -/
  typeRaisesExceptions : Option (List Node) := none
  typeMethodBasetype : Option Node := none
  typeOffsetBasetype : Option Node := none
  /-- The text of `TYPE_MAX_VALUE (TYPE_DOMAIN (t))`, for an array type with a domain. -/
  typeDomainMax : Option String := none
  /-- `TYPE_VALUES`: the name and the value of each enumerator. -/
  typeValues : List (Option String × Node) := []
  -- declarations
  declName : Option String := none
  declContext : Option Node := none
  declSourceFile : String := ""
  declSourceLine : Nat := 1
  declArtificial : Bool := false
  declInitial : Option Initial := none
  hasDeclAssemblerNameP : Bool := false
  declAssemblerName : Option String := none
  declAttributes : List Attribute := []
  treePrivate : Bool := false
  treeProtected : Bool := false
  declMutableP : Bool := false
  declExternal : Bool := false
  declNotReallyExtern : Bool := false
  declInline : Bool := false
  declDeclaredInlineP : Bool := false
  declThisStatic : Bool := false
  declBitFieldType : Option Node := none
  declSize : Option IntCst := none
  declFieldOffset : Option IntCst := none
  declFieldBitOffset : Option IntCst := none
  -- functions
  declConstructorP : Bool := false
  declDestructorP : Bool := false
  declOverloadedOperatorP : Bool := false
  declConvFnP : Bool := false
  declFunctionMemberP : Bool := false
  declNonstaticMemberFunctionP : Bool := false
  declConstMemfuncP : Bool := false
  declNonconvertingP : Bool := false
  declAssignmentOperatorP : Bool := false
  declClonedFunctionP : Bool := false
  declVirtualP : Bool := false
  declPureVirtualP : Bool := false
  declArguments : List (ParmDecl Node) := []
  declSavedTree : Option Body := none
  gccxmlDeclError : Bool := false
  /-- Whether `synthesize_method` would mark this function with `GCCXML_DECL_ERROR`. -/
  synthesizeError : Bool := false
  /-- `DECL_BEFRIENDING_CLASSES` or `CLASSTYPE_BEFRIENDING_CLASSES`. -/
  befriendingClasses : List Node := []
  -- typedefs, namespaces and templates
  declOriginalType : Option Node := none
  declImplicitTypedefP : Bool := false
  declNamespaceAlias : Option Node := none
  declTemplateSpecializations : List Node := []
  /-- `DECL_TEMPLATE_INSTANTIATIONS`: the instantiated types. -/
  declTemplateInstantiations : List Node := []

/-! ## The graph -/

/-- The nodes of a translation unit and the tables of the front end that `xml.c` consults. -/
structure TreeGraph (Node : Type) where
  tree : Node → TreeNode Node
  globalNamespace : Node
  stdNode : Option Node := none
  /-- `IDENTIFIER_NAMESPACE_BINDINGS` of every identifier, in the order of `ident_hash`. -/
  identBindings : List (List (CxxBinding Node)) := []
  lookForOverridesHere : Node → Node → Option Node := fun _ _ => none
  cplusDemangle : String → Option String := fun _ => none
  identifierOpnameP : String → Bool := fun _ => false
  operatorNames : List OperatorName := []
  treeCodeNumber : TreeCode → Nat := fun _ => 0
  hostBitsPerWideInt : Nat := 64
  /-- `xml_get_xml_c_version ()` and the optional `GCCXML_VERSION_FULL`. -/
  xmlCVersion : String := "1.135"
  gccxmlVersionFull : Option String := none

namespace TreeGraph

variable {Node : Type} (g : TreeGraph Node)

/-- `TREE_CODE`. -/
def treeCode (n : Node) : TreeCode := (g.tree n).code

/-- `DECL_P`. -/
def declP (n : Node) : Bool := (g.treeCode n).codeClass = .declaration

/-- `TYPE_P`. -/
def typeP (n : Node) : Bool := (g.treeCode n).codeClass = .type

/-- `TREE_TYPE` where the source uses it without a test for null. -/
def treeType (n : Node) : Node := (g.tree n).treeType.getD n

/-- `TYPE_MAIN_VARIANT`. -/
def typeMainVariant (n : Node) : Node := (g.tree n).mainVariant.getD n

/-- `TYPE_NAME` where the source uses it without a test for null. -/
def typeNameOf (n : Node) : Node := (g.tree n).typeName.getD n

/-- `CP_DECL_CONTEXT`. -/
def cpDeclContext (n : Node) : Node := (g.tree n).declContext.getD g.globalNamespace

/-- `TYPE_PTRMEMFUNC_P`. -/
def typePtrmemfuncP (n : Node) : Bool :=
  g.treeCode n = .recordType && (g.tree n).typePtrmemfuncFnType.isSome

/-- `TYPE_PTRMEMFUNC_FN_TYPE`. -/
def typePtrmemfuncFnType (n : Node) : Node := (g.tree n).typePtrmemfuncFnType.getD n

/-- `DECL_REALLY_EXTERN`. -/
def declReallyExtern (n : Node) : Bool := (g.tree n).declExternal && !(g.tree n).declNotReallyExtern

/-- The functions that a walk along `OVL_CURRENT` and `OVL_NEXT` from `o` visits. -/
def ovlChain (o : Node) : List Node :=
  if g.treeCode o = .overload then (g.tree o).ovlFunctions else [o]

/-- The target of a typedef: `DECL_ORIGINAL_TYPE` if there is one, else `TREE_TYPE`. -/
def typedefTarget (td : Node) : Node := (g.tree td).declOriginalType.getD (g.treeType td)

/-- `BINFO_TYPE` of each base of the class `t`. -/
def baseTypes (t : Node) : List Node := ((g.tree t).typeBinfo.getD []).map (·.type)

/-- The bases of the class `t` that `xml_print_overrides` visits. -/
def polymorphicBases (t : Node) : List Node :=
  (g.baseTypes t).filter fun b => (g.tree b).typePolymorphicP

/-- The member templates of the class template `td`, for a class type. -/
def memberTemplates (td : Node) : List Node :=
  match g.treeCode (g.treeType td) with
  | .recordType | .unionType | .qualUnionType =>
      (g.tree (g.treeType td)).typeFields.filter fun tl => g.treeCode tl = .templateDecl
  | _ => []

/-- The nodes that `xml_add_node` may go on to when it is called for `n`. -/
def redirects (n : Node) : List Node :=
  match g.treeCode n with
  | .typeDecl => [g.treeType n, g.typeMainVariant (g.typedefTarget n)]
  | .treeList => (g.tree n).treeValue.toList.flatMap g.ovlChain
  | .overload => g.ovlChain n
  | .templateDecl =>
      ((g.tree n).declTemplateSpecializations.filter fun ts => g.treeCode ts = .functionDecl)
        ++ ((g.tree n).declTemplateInstantiations.map g.typeNameOf).filter (fun ts => g.treeCode ts = .typeDecl)
        ++ g.memberTemplates n
  | .recordType => (g.tree n).typePtrmemfuncFnType.toList
  | _ => []

/-- The nodes that some recursion or pointer chase of `xml.c` goes on to from `n`: the redirections of
    `xml_add_node`, the bases visited by `xml_print_overrides` and the target of a namespace alias. -/
def descents (n : Node) : List Node :=
  g.redirects n ++ g.polymorphicBases n ++ (g.tree n).declNamespaceAlias.toList

/-- The vector that `xml_fill_all_decls` leaves in the scope `ns`. -/
def allDecls [DecidableEq Node] (ns : Node) : List Node :=
  g.identBindings.flatten.flatMap fun binding =>
    if binding.scope = ns then binding.value.toList ++ binding.type.toList else []

end TreeGraph

/-- **A translation unit**: a finite graph of nodes with what GCC guarantees about it. The recursions of
    `xml.c` have no bound of their own; they end because typedefs lead to types, overloads to functions, member
    templates nest inside their class template, and class hierarchies and namespace aliases have no cycles. `rank`
    is a measure that goes down along all of these. -/
structure TranslationUnit (Node : Type) extends TreeGraph Node where
  /-- Every node, in the order of their addresses. -/
  nodes : List Node
  mem_nodes : ∀ n, n ∈ nodes
  address : Node → Nat
  nodes_sorted : nodes.Pairwise fun a b => address a < address b
  rank : Node → Nat
  rank_lt : ∀ n, ∀ m ∈ toTreeGraph.descents n, rank m < rank n

namespace TranslationUnit

variable {Node : Type} (tu : TranslationUnit Node)

theorem nodes_nodup : tu.nodes.Nodup :=
  tu.nodes_sorted.imp fun h he => absurd h (by rw [he]; exact Nat.lt_irrefl _)

theorem rank_redirects {n m : Node} (h : m ∈ tu.redirects n) : tu.rank m < tu.rank n :=
  tu.rank_lt n m (by simp [TreeGraph.descents, h])

theorem rank_polymorphicBases {t b : Node} (h : b ∈ tu.polymorphicBases t) : tu.rank b < tu.rank t :=
  tu.rank_lt t b (by simp [TreeGraph.descents, h])

theorem rank_declNamespaceAlias {n m : Node} (h : (tu.tree n).declNamespaceAlias = some m) :
    tu.rank m < tu.rank n :=
  tu.rank_lt n m (by simp [TreeGraph.descents, h])

end TranslationUnit

end GccXml
