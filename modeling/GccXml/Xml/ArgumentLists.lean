import GccXml.Xml.Elements
import Mathlib.Data.List.Forall2

namespace GccXml

variable {Node : Type} [DecidableEq Node] {tu : TranslationUnit Node}

/-! # `Xml.ArgumentLists` — the arguments of functions and of their types

A function has its parameters twice: as the `PARM_DECL`s of `DECL_ARGUMENTS`, if it has these, and as the list
`TYPE_ARG_TYPES` of its type. Three loops print them. They agree on what the parameters are.

What the parameters are is said by `declaredParameters`: the types of the list, each with its `PARM_DECL` if there is
one, without `this` and those that the compiler added. `ArgumentsAligned` is the agreement of the two lists that
the front end keeps when it builds a function; without it the loop of `xml_output_function_decl`, which steps through
both at once, would pair a name with the type of another parameter.

From it follows, by one induction along both lists, that the loop goes over the declared parameters
(`functionArguments_eq`). `CarriesParameter` says of an `Argument` element what it has to hold; the loops of
`xml_output_function_type` and `xml_output_method_type` print the types of the same list, and the main result puts the
three accounts beside each other. -/

/-! ## The declared parameters -/

/-- `DECL_ARGUMENTS` is absent, or has one `PARM_DECL` for each node of `TYPE_ARG_TYPES`. -/
def ArgumentsAligned (tu : TranslationUnit Node) (fd : Node) : Prop :=
  (tu.tree fd).declArguments = [] ∨
    (tu.tree fd).declArguments.length = (tu.tree (tu.treeType fd)).typeArgTypes.length

/-- Every parameter of the function: its `PARM_DECL`, if the function has these, and the node of its type. -/
def allParameters (tu : TranslationUnit Node) (fd : Node) : List (Option (ParmDecl Node) × ArgType Node) :=
  let argTypes := (tu.tree (tu.treeType fd)).typeArgTypes
  if (tu.tree fd).declArguments = [] then argTypes.map fun tl => (none, tl)
  else ((tu.tree fd).declArguments.map some).zip argTypes

/-- **The declared parameters** of the function: all but `this` and those that the compiler added. -/
def declaredParameters (tu : TranslationUnit Node) (fd : Node) : List (Option (ParmDecl Node) × ArgType Node) :=
  ((allParameters tu fd).drop (skippedArguments tu fd)).filter fun p => !p.1.any (·.declArtificial)

/-- A list of attributes has the name, the type and the default of a parameter, each if the parameter has it. -/
structure CarriesParameter (tu : TranslationUnit Node) (complete : Bool)
    (attrs : List (String × List (SymPiece Node))) (p : Option (ParmDecl Node) × ArgType Node) : Prop where
  name : attrs.lookup "name" = (p.1.bind (·.declName)).map fun name => [.str (xmlGetEncodedString (some name))]
  type : attrs.lookup "type" = some [(xmlPrintTypeIdref tu (argumentType tu p.1 p.2) complete).value]
  default : attrs.lookup "default" = p.2.purpose.map fun text => [.str (xmlGetEncodedStringFromString text)]

/-! ## One argument -/

omit [DecidableEq Node] in
/-- A block has no attribute that is not among its names. -/
theorem AttrBlock.lookup_eq_none {names : List String} {p : Print Node Unit} {key : String} (h : AttrBlock names p)
    (hkey : key ∉ names) : (attrsOf p).lookup key = none := by
  rw [List.lookup_eq_none_iff]
  intro a ha
  have hmem : a.1 ∈ names := h.names.subset (List.mem_map_of_mem ha)
  simp only [bne_iff_ne]
  rintro rfl
  exact hkey hmem

/-- **One argument.** The attributes of an `Argument` element carry its parameter. -/
theorem carriesParameter (complete : Bool) (p : Option (ParmDecl Node) × ArgType Node) :
    CarriesParameter tu complete (attrsOf (argumentAttributes tu p.1 p.2 complete)) p := by
  obtain ⟨pd, tl⟩ := p
  have hname : AttrBlock ["name"] (Trace.whenSome (pd.bind (·.declName)) fun name =>
      (xmlPrintNameAttribute (some name) : Print Node Unit)) := .whenSome fun _ => xmlPrintNameAttribute_block _
  have htype := xmlPrintTypeAttribute_block tu (argumentType tu pd tl) complete
  have hlocation : AttrBlock ["location", "file", "line"] (Trace.whenSome (pd.filter (·.treeType.isSome)) fun p =>
      (xmlPrintLocationAttribute p.declSourceFile p.declSourceLine : Print Node Unit)) :=
    .whenSome fun _ => xmlPrintLocationAttribute_block _ _
  have hdefault : AttrBlock ["default"] (Trace.whenSome tl.purpose
      (xmlPrintDefaultArgumentAttribute : String → Print Node Unit)) :=
    .whenSome fun _ => xmlPrintDefaultArgumentAttribute_block _
  have hattributes : AttrBlock ["attributes"] (Trace.whenSome pd fun p =>
      (xmlPrintAttributesAttribute p.declAttributes [] : Print Node Unit)) :=
    .whenSome fun _ => xmlPrintAttributesAttribute_block _ _
  -- every attribute is written by one block, and the other blocks write other names
  unfold argumentAttributes
  constructor
  case name =>
    simp only [attrsOf_bind, List.lookup_append]
    rw [htype.lookup_eq_none (by decide), hlocation.lookup_eq_none (by decide), hdefault.lookup_eq_none (by decide),
      hattributes.lookup_eq_none (by decide)]
    cases pd.bind (·.declName) <;> rfl
  case type =>
    simp only [attrsOf_bind, List.lookup_append]
    have hidref : attrsOf (xmlPrintTypeIdref tu (argumentType tu pd tl) complete) = [] :=
      attrsOf_of_fragsOf_nil (by simp)
    rw [hname.lookup_eq_none (by decide), hlocation.lookup_eq_none (by decide), hdefault.lookup_eq_none (by decide),
      hattributes.lookup_eq_none (by decide), xmlPrintTypeAttribute, attrsOf_bind, hidref]
    rfl
  case default =>
    simp only [attrsOf_bind, List.lookup_append]
    rw [hname.lookup_eq_none (by decide), htype.lookup_eq_none (by decide), hlocation.lookup_eq_none (by decide),
      hattributes.lookup_eq_none (by decide)]
    cases tl.purpose <;> rfl

/-! ## The loops -/

omit [DecidableEq Node] in
/-- Without `DECL_ARGUMENTS`, the loop goes over the types alone. -/
theorem printedArguments_nil (tls : List (ArgType Node)) : printedArguments [] tls = tls.map fun tl => (none, tl) := by
  induction tls with
  | nil => rfl
  | cons tl tls ih => rw [printedArguments, ih, List.map_cons]

omit [DecidableEq Node] in
/-- With as many declarations as types, the loop goes over the pairs, and leaves out what the compiler added. -/
theorem printedArguments_zip {pds : List (ParmDecl Node)} {tls : List (ArgType Node)}
    (hlen : pds.length = tls.length) :
    printedArguments pds tls = ((pds.map some).zip tls).filter fun p => !p.1.any (·.declArtificial) := by
  induction pds generalizing tls with
  | nil =>
      rw [List.length_nil] at hlen
      rw [List.eq_nil_of_length_eq_zero hlen.symm]
      rfl
  | cons pd pds ih =>
      cases tls with
      | nil => cases hlen
      | cons tl tls =>
          have hrest : pds.length = tls.length := by simpa using hlen
          rw [printedArguments, ih hrest, List.map_cons, List.zip_cons_cons, List.filter_cons]
          cases hartificial : pd.declArtificial <;> simp [hartificial]

theorem drop_zip {α β : Type} (n : Nat) (l : List α) (l' : List β) :
    (l.zip l').drop n = (l.drop n).zip (l'.drop n) := List.drop_zipWith

omit [DecidableEq Node] in
/-- **The loop of `xml_output_function_decl`** goes over the declared parameters. -/
theorem functionArguments_eq {fd : Node} (haligned : ArgumentsAligned tu fd) :
    functionArguments tu fd = declaredParameters tu fd := by
  unfold functionArguments declaredParameters allParameters
  dsimp only
  by_cases hnil : (tu.tree fd).declArguments = []
  · rw [if_pos hnil, hnil, List.drop_nil, printedArguments_nil, ← List.map_drop]
    symm
    rw [List.filter_eq_self]
    rintro p hp
    obtain ⟨tl, -, rfl⟩ := List.mem_map.mp hp
    rfl
  · have hlen := haligned.resolve_left hnil
    rw [if_neg hnil, printedArguments_zip (by rw [List.length_drop, List.length_drop, hlen]), List.map_drop,
      drop_zip]

omit [DecidableEq Node] in
/-- Without added parameters, each node of the types is that of a declared parameter. -/
theorem length_declaredParameters {fd : Node} (haligned : ArgumentsAligned tu fd)
    (hreal : ∀ p ∈ (tu.tree fd).declArguments.drop (skippedArguments tu fd), p.declArtificial = false) :
    (declaredParameters tu fd).length =
      ((tu.tree (tu.treeType fd)).typeArgTypes.drop (skippedArguments tu fd)).length := by
  have hall : declaredParameters tu fd = (allParameters tu fd).drop (skippedArguments tu fd) := by
    unfold declaredParameters
    rw [List.filter_eq_self]
    intro p hp
    unfold allParameters at hp
    split at hp
    · rw [← List.map_drop] at hp
      obtain ⟨tl, -, rfl⟩ := List.mem_map.mp hp
      rfl
    · rw [drop_zip, ← List.map_drop] at hp
      obtain ⟨pd, hpd, hfirst⟩ := List.mem_map.mp (List.of_mem_zip hp).1
      rw [← hfirst]
      simp [hreal pd hpd]
  rw [hall, List.length_drop, List.length_drop, allParameters]
  split
  · rw [List.length_map]
  · next hpresent =>
      rw [List.length_zip, List.length_map, haligned.resolve_left hpresent, Nat.min_self]

/-! ## The three accounts of the list -/

/-- The children of a function or of its type: `arguments`, each an `Argument`, and an `Ellipsis` unless the list of
types ends with `void_list_node`. -/
def ArgumentChildren (endVoid : Bool) (arguments children : List (SymChild Node)) : Prop :=
  (∀ argument ∈ arguments, argument.element.tag = "Argument") ∧
    children = arguments ++ if endVoid then [] else [{ indent := 4, element := ⟨"Ellipsis", []⟩ }]

/-- The type of a function is printed with `count` arguments. -/
def TypePrintsArguments (tu : TranslationUnit Node) (type : Node) (count : Nat) : Prop :=
  ∀ complete, ∃ element arguments children,
    (if tu.treeCode type = .methodType then fragsOf (xmlOutputMethodType tu type complete)
      else fragsOf (xmlOutputFunctionType tu type complete)) = Entry.frags ⟨element, some children⟩ ∧
    ArgumentChildren (tu.tree type).argTypesEndVoid arguments children ∧ arguments.length = count

theorem argumentChildren_eq (complete endVoid : Bool) (args : List (Option (ParmDecl Node) × ArgType Node)) :
    ArgumentChildren endVoid (args.map (argumentChild tu complete)) (argumentChildren tu complete args endVoid) := by
  refine ⟨fun argument hargument => ?_, rfl⟩
  obtain ⟨p, -, rfl⟩ := List.mem_map.mp hargument
  rfl

theorem typePrintsArguments {fd : Node}
    (hmethod : (tu.tree fd).declNonstaticMemberFunctionP = true ↔ tu.treeCode (tu.treeType fd) = .methodType) :
    TypePrintsArguments tu (tu.treeType fd)
      ((tu.tree (tu.treeType fd)).typeArgTypes.drop (skippedArguments tu fd)).length := by
  intro complete
  by_cases hcode : tu.treeCode (tu.treeType fd) = .methodType
  · rw [if_pos hcode, fragsOf_xmlOutputMethodType, skippedArguments, if_pos (hmethod.mpr hcode)]
    exact ⟨_, _, _, rfl, argumentChildren_eq complete _ _, by rw [List.length_map, printedArguments_nil, List.length_map]⟩
  · have hskip : skippedArguments tu fd = 0 := if_neg (fun h => hcode (hmethod.mp h))
    rw [if_neg hcode, fragsOf_xmlOutputFunctionType, hskip, List.drop_zero]
    exact ⟨_, _, _, rfl, argumentChildren_eq complete _ _, by rw [List.length_map, printedArguments_nil, List.length_map]⟩

/-- **Argument lists match the declared parameters.** When the declarations of the parameters are aligned with their
types, `xml_output_function_decl` prints an element with one `Argument` for each declared parameter, in order and
carrying it, and an `Ellipsis` unless the list of types ends with `void_list_node`; the element is closed at once only
if it has no children. The type of a function without added parameters is printed with as many arguments, and with an
`Ellipsis` in the same case. -/
theorem xmlOutputFunctionDecl_arguments {fd : Node} (complete : Bool) (haligned : ArgumentsAligned tu fd)
    (hmethod : (tu.tree fd).declNonstaticMemberFunctionP = true ↔ tu.treeCode (tu.treeType fd) = .methodType) :
    (∃ element arguments children,
      fragsOf (xmlOutputFunctionDecl tu fd complete) = Entry.frags ⟨element, children⟩ ∧
        ArgumentChildren (tu.tree (tu.treeType fd)).argTypesEndVoid arguments (children.getD []) ∧
        List.Forall₂ (fun argument p => CarriesParameter tu complete argument.element.attrs p) arguments
          (declaredParameters tu fd)) ∧
      ((∀ p ∈ (tu.tree fd).declArguments.drop (skippedArguments tu fd), p.declArtificial = false) →
        TypePrintsArguments tu (tu.treeType fd) (declaredParameters tu fd).length) := by
  constructor
  · refine ⟨_, (declaredParameters tu fd).map (argumentChild tu complete), _, fragsOf_xmlOutputFunctionDecl tu fd complete,
      ?_, ?_⟩
    · unfold functionChildren
      dsimp only
      split
      · -- the element is closed at once
        next hempty =>
          rw [Bool.and_eq_true, List.isEmpty_iff] at hempty
          obtain ⟨hnone, hend⟩ := hempty
          rw [← functionArguments_eq haligned, functionArguments, hnone, hend]
          exact argumentChildren_eq complete true []
      · rw [functionArguments_eq haligned]
        exact argumentChildren_eq complete _ _
    · rw [List.forall₂_map_left_iff]
      exact List.forall₂_same.mpr fun p _ => carriesParameter complete p
  · intro hreal
    rw [length_declaredParameters haligned hreal]
    exact typePrintsArguments hmethod

/-! ### A method with `this`, a default and an ellipsis

The unit is `struct S { void f(int x, int y = 1, ...); };`. -/

/-- The nodes of the example: the global namespace, `S`, its `f` with the type of it, `S*`, `int` and `void`. -/
inductive VariadicMethodNode
  | globalNamespace | s | f | methodType | pointer | int | void
  deriving DecidableEq

/-- The parameters of `f`, with `this` in front. -/
def variadicParameters : List (ParmDecl VariadicMethodNode) :=
  [{ declName := some "this", treeType := some .pointer, declSourceFile := "a.h", declArtificial := true },
    { declName := some "x", treeType := some .int, declSourceFile := "a.h" },
    { declName := some "y", treeType := some .int, declSourceFile := "a.h" }]

/-- The unit, with its nodes in the order of their addresses. -/
def variadicMethod : TranslationUnit VariadicMethodNode where
  globalNamespace := .globalNamespace
  tree
    | .globalNamespace => { code := .namespaceDecl, declName := some "::" }
    | .s => { code := .recordType }
    | .f => { code := .functionDecl, declName := some "f", declContext := some .s, treeType := some .methodType
              declSourceFile := "a.h", declNonstaticMemberFunctionP := true, declArguments := variadicParameters }
    | .methodType => { code := .methodType, treeType := some .void, argTypesEndVoid := false
                       typeArgTypes := [{ value := .pointer }, { value := .int }, { value := .int, purpose := some "1" }] }
    | .pointer => { code := .pointerType, treeType := some .s }
    | .int => { code := .integerType }
    | .void => { code := .voidType }
  nodes := [.globalNamespace, .s, .f, .methodType, .pointer, .int, .void]
  mem_nodes n := by cases n <;> decide
  address
    | .globalNamespace => 0
    | .s => 1
    | .f => 2
    | .methodType => 3
    | .pointer => 4
    | .int => 5
    | .void => 6
  nodes_sorted := by decide
  rank _ := 0
  rank_lt n := by cases n <;> decide

/-- The argument list of `f` has `x` and `y` but not `this`, and the `Ellipsis`; that of its type has as many arguments. -/
theorem xmlOutputFunctionDecl_arguments_variadicMethod :
    declaredParameters variadicMethod .f =
        [(variadicParameters[1]?, { value := .int }), (variadicParameters[2]?, { value := .int, purpose := some "1" })] ∧
      (∃ element arguments children,
        fragsOf (xmlOutputFunctionDecl variadicMethod .f true) = Entry.frags ⟨element, children⟩ ∧
          ArgumentChildren false arguments (children.getD []) ∧
          List.Forall₂ (fun argument p => CarriesParameter variadicMethod true argument.element.attrs p) arguments
            (declaredParameters variadicMethod .f)) ∧
      TypePrintsArguments variadicMethod .methodType (declaredParameters variadicMethod .f).length := by
  obtain ⟨hdecl, htype⟩ := @xmlOutputFunctionDecl_arguments VariadicMethodNode _ variadicMethod .f true
    (.inr rfl) (by decide)
  have hreal : ∀ p ∈ (variadicMethod.tree .f).declArguments.drop (skippedArguments variadicMethod .f),
      p.declArtificial = false := by
    intro p hp
    obtain rfl | rfl : p = { declName := some "x", treeType := some .int, declSourceFile := "a.h" } ∨
        p = { declName := some "y", treeType := some .int, declSourceFile := "a.h" } := by
      simpa [skippedArguments, variadicMethod, variadicParameters] using hp
    · rfl
    · rfl
  exact ⟨rfl, hdecl, htype hreal⟩

end GccXml
