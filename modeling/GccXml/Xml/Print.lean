import Mathlib.Algebra.GroupWithZero.Nat
import GccXml.Xml.AddNode

namespace GccXml

/-! # `Xml.Print` — the attributes that `xml.c` writes

A printing function reads the tree, asks `xml_add_node` for indices, queues file names and writes text. None of it
looks at the state of the dump, so a printing function is a `Trace` whose log holds these three effects. Text is
logged as fragments of XML syntax in which a node stands for the index of its dump node; `Xml.Dump` puts in the
index the node has when the fragment is written. -/

/-! ## Fragments -/

/-- A piece of an attribute value. `ι` stands for a node index and `φ` for a file index. -/
inductive Piece (Node ι φ : Type)
  /-- A `%s`, or literal text of the format. -/
  | str (text : String)
  /-- A `%d` or a `%u`. -/
  | num (value : Int)
  /-- A `%p`. -/
  | ptr (address : Nat)
  /-- `f%d`: a reference to a file. -/
  | file (index : φ)
  /-- `_%d`: the index of a dump node. -/
  | id (index : ι)
  /-- `_%d%s%s%s`: the reference that stands for the type `t`. The type is kept for statements about
      references; no text comes from it. -/
  | typeId (t : Node) (index : ι) (suffix : Quals)
  deriving DecidableEq

/-- What one call of `fprintf` adds to the document, or the part of it that belongs to one attribute. The value of
    an attribute is one fragment, since nothing else is written between its quotes. -/
inductive Frag (Node ι φ : Type)
  /-- Text before the root element. -/
  | prolog (text : String)
  /-- The start of a tag, after `indent` blanks. -/
  | startTag (indent : Nat) (tag : String)
  | attr (name : String) (value : List (Piece Node ι φ))
  /-- `>` and the end of the line. -/
  | endStartTag
  /-- `/>` and the end of the line. -/
  | emptyTag
  | endTag (indent : Nat) (tag : String)
  | blanks (count : Nat)
  deriving DecidableEq

/-- A fragment as the printing functions issue it: indices are named by what they are the index of. -/
abbrev SymPiece (Node : Type) := Piece Node (Option Node) String

@[inherit_doc SymPiece] abbrev SymFrag (Node : Type) := Frag Node (Option Node) String

/-- What a printing function does. -/
inductive Action (Node : Type)
  | emit (frag : SymFrag Node)
  | addNode (n : Node) (complete : Bool)
  | queueFile (name : String)
  deriving DecidableEq

/-- A printing function. -/
abbrev Print (Node : Type) := Trace (Action Node)

/-! ## Strings -/

/-- The replacement of one character in `xml_escape_string`. -/
def xmlEscapeChar : Char → List Char
  | '&' => "&amp;".toList
  | '<' => "&lt;".toList
  | '>' => "&gt;".toList
  | '\'' => "&apos;".toList
  | '"' => "&quot;".toList
  | c => [c]

/-- `xml_escape_string`. -/
def xmlEscapeString (inStr : String) : String := String.ofList (inStr.toList.flatMap xmlEscapeChar)

/-- `xml_get_encoded_string_from_string`, and with it `xml_get_encoded_identifier_from_string`: interning the
    encoded text does not change it. -/
def xmlGetEncodedStringFromString (inStr : String) : String := xmlEscapeString inStr

/-- `xml_get_encoded_string`. -/
def xmlGetEncodedString (inId : Option String) : String :=
  match inId with
  | some s => xmlGetEncodedStringFromString s
  | none => ""

/-- `host_integerp (t, 1)` for an `INTEGER_CST`. -/
def IntCst.hostIntegerp (c : IntCst) : Bool := c.high = 0

/-- An integer that `%d` prints from its low 32 bits. -/
def asInt (low : Nat) : Int := Int.bmod low (2 ^ 32)

section
variable {Node : Type} [DecidableEq Node] (tu : TranslationUnit Node)

def emit (frag : SymFrag Node) : Print Node Unit := Trace.tell (.emit frag)

/-- Write ` name="value"`. -/
def writeAttr (name : String) (value : List (SymPiece Node)) : Print Node Unit := emit (.attr name value)

/-- The call of `xml_add_node` in a printing function. -/
def addNode (n : Node) (complete : Bool) : Print Node (Option Node) :=
  ⟨(xmlAddNode tu n complete).value, [.addNode n complete]⟩

/-- The call of `xml_queue_file`: the file is named by its encoded name. -/
def xmlQueueFile (filename : String) : Print Node String :=
  let t := xmlGetEncodedStringFromString filename
  ⟨t, [.queueFile t]⟩

/-- An attribute that is written with the value 1 or not at all. -/
def flagAttribute (name : String) (flag : Bool) : Print Node Unit :=
  Trace.when flag (writeAttr name [.str "1"])

/-! ## Attributes of declarations -/

/-- `xml_print_location_attribute`, for a declaration at line `line` of `file`. -/
def xmlPrintLocationAttribute (file : String) (line : Nat) : Print Node Unit := do
  let f ← xmlQueueFile file
  writeAttr "location" [.file f, .str ":", .num line]
  writeAttr "file" [.file f]
  writeAttr "line" [.num line]

/-- `xml_print_location_attribute (xdi, d)`. -/
def xmlPrintDeclLocationAttribute (d : Node) : Print Node Unit :=
  xmlPrintLocationAttribute (tu.tree d).declSourceFile (tu.tree d).declSourceLine

/-- The line of the last statement of a body, if it has one. -/
def Body.lastLine : Body → Option Nat
  | .expr line => line
  | .statementList lines => lines.getLast?.join
  | .other => none

/-- `xml_print_endline_attribute`. -/
def xmlPrintEndlineAttribute (body : Body) : Print Node Unit :=
  Trace.whenSome body.lastLine fun line => writeAttr "endline" [.num line]

/-- `xml_print_id_attribute`, for the dump node of `n`. -/
def xmlPrintIdAttribute (n : Node) : Print Node Unit := writeAttr "id" [.id (some n)]

/-- `xml_print_name_attribute`. -/
def xmlPrintNameAttribute (n : Option String) : Print Node Unit :=
  writeAttr "name" [.str (xmlGetEncodedString n)]

/-- The assembler name of `n`, when it has one that differs from its name. -/
def mangledName (n : Node) : Option String :=
  if (tu.tree n).hasDeclAssemblerNameP ∧ (tu.tree n).declName.isSome ∧
      (tu.tree n).declAssemblerName ≠ (tu.tree n).declName then
    (tu.tree n).declAssemblerName
  else none

/-- `xml_print_mangled_attribute`. -/
def xmlPrintMangledAttribute (n : Node) : Print Node Unit :=
  Trace.whenSome (mangledName tu n) fun name => writeAttr "mangled" [.str (xmlGetEncodedString (some name))]

/-- `text` up to the first occurrence of `pat`. -/
def beforeFirst (pat : List Char) : List Char → List Char
  | [] => []
  | c :: cs => if pat.isPrefixOf (c :: cs) then [] else c :: beforeFirst pat cs

/-- The demangled form of the assembler name `asmName`, which is encoded and cut before it is demangled. -/
def demangledName (asmName : String) : Option String :=
  let name := xmlGetEncodedString (some asmName)
  tu.cplusDemangle (String.ofList (beforeFirst " *INTERNAL* ".toList name.toList))

/-- `xml_print_demangled_attribute`. -/
def xmlPrintDemangledAttribute (n : Node) : Print Node Unit :=
  Trace.whenSome ((mangledName tu n).bind (demangledName tu)) fun dename =>
    writeAttr "demangled" [.str (xmlEscapeString dename)]

/-- `xml_print_mutable_attribute`. -/
def xmlPrintMutableAttribute (n : Node) : Print Node Unit := flagAttribute "mutable" (tu.tree n).declMutableP

/-- `xml_print_explicit_attribute`. -/
def xmlPrintExplicitAttribute (d : Node) : Print Node Unit :=
  flagAttribute "explicit" (tu.tree d).declNonconvertingP

/-- `xml_print_const_method_attribute`. -/
def xmlPrintConstMethodAttribute (fd : Node) : Print Node Unit :=
  flagAttribute "const" (tu.tree fd).declConstMemfuncP

/-- `xml_print_static_method_attribute`. -/
def xmlPrintStaticMethodAttribute (fd : Node) : Print Node Unit :=
  flagAttribute "static" !(tu.tree fd).declNonstaticMemberFunctionP

/-- `xml_print_static_attribute`. -/
def xmlPrintStaticAttribute (fd : Node) : Print Node Unit := flagAttribute "static" (tu.tree fd).declThisStatic

/-- `xml_print_extern_attribute`. -/
def xmlPrintExternAttribute (d : Node) : Print Node Unit := flagAttribute "extern" (tu.tree d).declExternal

/-- `xml_print_inline_attribute`. -/
def xmlPrintInlineAttribute (d : Node) : Print Node Unit :=
  flagAttribute "inline" (tu.tree d).declDeclaredInlineP

/-- `xml_print_function_extern_attribute`. -/
def xmlPrintFunctionExternAttribute (fd : Node) : Print Node Unit :=
  flagAttribute "extern" (tu.declReallyExtern fd)

/-- `xml_print_artificial_attribute`. -/
def xmlPrintArtificialAttribute (d : Node) : Print Node Unit :=
  flagAttribute "artificial" (tu.tree d).declArtificial

/-- `xml_print_incomplete_attribute`. -/
def xmlPrintIncompleteAttribute (t : Node) : Print Node Unit :=
  flagAttribute "incomplete" !(tu.tree t).completeTypeP

/-- `xml_print_abstract_attribute`. -/
def xmlPrintAbstractAttribute (t : Node) : Print Node Unit :=
  flagAttribute "abstract" (tu.tree t).classtypePureVirtuals

/-- An attribute with the value of an integer constant, written when `host_integerp` accepts it. -/
def constantAttribute (name : String) (c : Option IntCst) : Print Node Unit :=
  Trace.whenSome c fun c => Trace.when c.hostIntegerp (writeAttr name [.num c.low])

/-- `xml_print_size_attribute`. -/
def xmlPrintSizeAttribute (t : Node) : Print Node Unit := constantAttribute "size" (tu.tree t).typeSize

/-- `xml_print_align_attribute`. -/
def xmlPrintAlignAttribute (t : Node) : Print Node Unit := writeAttr "align" [.num (tu.tree t).typeAlign]

/-- `xml_print_offset_attribute`; the sum is taken in an `unsigned HOST_WIDE_INT`. -/
def xmlPrintOffsetAttribute (d : Node) : Print Node Unit :=
  Trace.whenSome (tu.tree d).declFieldOffset fun byteOfs =>
    Trace.whenSome (tu.tree d).declFieldBitOffset fun bitOfs =>
      Trace.when (byteOfs.hostIntegerp ∧ bitOfs.hostIntegerp)
        (writeAttr "offset" [.num ((byteOfs.low * 8 + bitOfs.low) % 2 ^ tu.hostBitsPerWideInt : Nat)])

/-- `xml_print_bits_attribute`. -/
def xmlPrintBitsAttribute (d : Node) : Print Node Unit :=
  Trace.when (tu.tree d).declBitFieldType.isSome (constantAttribute "bits" (tu.tree d).declSize)

/-- `xml_print_default_argument_attribute`, for an expression with the text `t`. -/
def xmlPrintDefaultArgumentAttribute (t : String) : Print Node Unit :=
  writeAttr "default" [.str (xmlGetEncodedStringFromString t)]

/-- The text of an initializer, unless it is `error_mark_node`. -/
def Initial.text? : Initial → Option String
  | .expr text => some text
  | .errorMark => none

/-- `xml_print_init_attribute`. -/
def xmlPrintInitAttribute (t : Option Initial) : Print Node Unit :=
  Trace.whenSome (t.bind Initial.text?) fun text =>
    writeAttr "init" [.str (xmlGetEncodedStringFromString text)]

/-- `xml_print_array_attributes`. -/
def xmlPrintArrayAttributes (t : Node) : Print Node Unit := do
  let length := match (tu.tree t).typeDomainMax with
    | some text => xmlGetEncodedStringFromString text
    | none => ""
  writeAttr "min" [.str "0"]
  writeAttr "max" [.str length]

/-- The text of an attribute argument: the string, or nothing for an argument of another kind. -/
def attribArg (arg : Option String) : SymPiece Node := .str (xmlGetEncodedStringFromString (arg.getD ""))

/-- The text of one `__attribute__` in `xml_print_attributes_attribute`, without the separator before it. -/
def attributeText (a : Attribute) : List (SymPiece Node) :=
  .str (xmlGetEncodedString (some a.purpose)) ::
    match a.args with
    | [] => []
    | arg :: args => .str "(" :: attribArg arg :: args.flatMap (fun arg => [.str ",", attribArg arg]) ++ [.str ")"]

/-- `xml_print_attributes_attribute`. -/
def xmlPrintAttributesAttribute (attributes₁ attributes₂ : List Attribute) : Print Node Unit :=
  match attributes₁ ++ attributes₂ with
  | [] => pure ()
  | a :: rest => writeAttr "attributes" (attributeText a ++ rest.flatMap fun a => .str " " :: attributeText a)

/-! ## Attributes that refer to other nodes -/

/-- `xml_get_idref`: the index that a reference to `t` names and the qualifiers it has to add. -/
def xmlGetIdref (t : Node) (complete : Bool) : Print Node (Option Node × Quals) := do
  let id ← addNode tu (tu.typeMainVariant t) complete
  let q := (tu.tree t).cpTypeQuals
  match (tu.tree t).typeName with
  | none => pure (id, q)
  | some name => do
      let id2 ← addNode tu name complete
      if id2.isSome then pure (id2, q.diff (tu.tree (tu.treeType name)).cpTypeQuals) else pure (id, q)

/-- `xml_print_type_idref`. -/
def xmlPrintTypeIdref (t : Node) (complete : Bool) : Print Node (SymPiece Node) := do
  let (id, q) ← xmlGetIdref tu t complete
  Trace.when (q ≠ Quals.none) (discard (addNode tu t complete))
  pure (.typeId t id q)

/-- `xml_print_type_attribute`. -/
def xmlPrintTypeAttribute (t : Node) (complete : Bool) : Print Node Unit := do
  let ref ← xmlPrintTypeIdref tu t complete
  writeAttr "type" [ref]

/-- `xml_print_returns_attribute`. -/
def xmlPrintReturnsAttribute (t : Node) (complete : Bool) : Print Node Unit := do
  let ref ← xmlPrintTypeIdref tu t complete
  writeAttr "returns" [ref]

/-- `xml_print_base_type_attribute`. -/
def xmlPrintBaseTypeAttribute (t : Node) (complete : Bool) : Print Node Unit := do
  let id ← addNode tu t complete
  writeAttr "basetype" [.id id]

/-- `xml_print_context_attribute`. -/
def xmlPrintContextAttribute (n : Node) : Print Node Unit :=
  Trace.when (n ≠ tu.globalNamespace) do
    let context := tu.cpDeclContext n
    let id ← addNode tu context false
    writeAttr "context" [.id id]
    Trace.when (tu.typeP context) <|
      writeAttr "access" [.str (if (tu.tree n).treePrivate then "private"
        else if (tu.tree n).treeProtected then "protected" else "public")]

/-- The pieces of a list that skips index 0. -/
def listedId (id : Option Node) : List (SymPiece Node) := if id.isSome then [.id id, .str " "] else []

/-- `xml_print_overrides_r`, with the call of `xml_print_overrides` as an argument: the number of methods found
    and the text written. -/
def xmlPrintOverridesR (overrides : Node → Print Node (Nat × List (SymPiece Node))) (fndecl type : Node) :
    Print Node (Nat × List (SymPiece Node)) :=
  match tu.lookForOverridesHere type fndecl with
  | some fn => do
      let id ← addNode tu fn true
      pure (1, listedId id)
  | none => overrides type

/-- `xml_print_overrides` with `fuel` for the depth of the class hierarchy. -/
def xmlPrintOverridesFuel (fndecl : Node) : Nat → Node → Print Node (Nat × List (SymPiece Node))
  | 0, _ => pure (0, [])
  | fuel + 1, type => do
      let found ← Trace.collect (tu.polymorphicBases type)
        (xmlPrintOverridesR tu (xmlPrintOverridesFuel fndecl fuel) fndecl)
      pure ((found.map (·.1)).sum, (found.map (·.2)).flatten)

/-- `xml_print_overrides`; the rank of a class bounds the depth of its hierarchy. -/
def xmlPrintOverrides (type fndecl : Node) : Print Node (Nat × List (SymPiece Node)) :=
  xmlPrintOverridesFuel tu fndecl (tu.rank type + 1) type

variable {tu} in
/-- The class hierarchy is no deeper than the rank, so more fuel changes nothing. -/
theorem xmlPrintOverridesFuel_eq {fndecl type : Node} {fuel fuel' : Nat} (hf : tu.rank type < fuel)
    (hf' : tu.rank type < fuel') :
    xmlPrintOverridesFuel tu fndecl fuel type = xmlPrintOverridesFuel tu fndecl fuel' type := by
  induction fuel generalizing fuel' type with
  | zero => exact absurd hf (Nat.not_lt_zero _)
  | succ fuel ih =>
      obtain ⟨fuel', rfl⟩ : ∃ k, fuel' = k + 1 := ⟨fuel' - 1, by omega⟩
      have hbase : ∀ base ∈ tu.polymorphicBases type,
          xmlPrintOverridesR tu (xmlPrintOverridesFuel tu fndecl fuel) fndecl base =
            xmlPrintOverridesR tu (xmlPrintOverridesFuel tu fndecl fuel') fndecl base := by
        intro base hbase
        have hrank := tu.rank_polymorphicBases hbase
        have hrec := @ih base fuel' (by omega) (by omega)
        unfold xmlPrintOverridesR
        rw [hrec]
      unfold xmlPrintOverridesFuel
      rw [Trace.collect_congr hbase]

/-- **The recursion of the source.** `xml_print_overrides` goes to each base with itself as the recursive call. -/
theorem xmlPrintOverrides_eq (type fndecl : Node) :
    xmlPrintOverrides tu type fndecl = (do
      let found ← Trace.collect (tu.polymorphicBases type)
        (xmlPrintOverridesR tu (fun base => xmlPrintOverrides tu base fndecl) fndecl)
      pure ((found.map (·.1)).sum, (found.map (·.2)).flatten)) := by
  have hbase : ∀ base ∈ tu.polymorphicBases type,
      xmlPrintOverridesR tu (xmlPrintOverridesFuel tu fndecl (tu.rank type)) fndecl base =
        xmlPrintOverridesR tu (fun base => xmlPrintOverrides tu base fndecl) fndecl base := by
    intro base hbase
    have hrank := tu.rank_polymorphicBases hbase
    unfold xmlPrintOverridesR xmlPrintOverrides
    rw [xmlPrintOverridesFuel_eq hrank (Nat.lt_succ_self _)]
  rw [xmlPrintOverrides, xmlPrintOverridesFuel, Trace.collect_congr hbase]

/-- `xml_print_overrides_method_attribute`. -/
def xmlPrintOverridesMethodAttribute (d : Node) : Print Node Unit :=
  Trace.when (tu.tree d).declVirtualP do
    let found ← xmlPrintOverrides tu (tu.cpDeclContext d) d
    writeAttr "overrides" found.2

/-- `xml_print_virtual_method_attributes`. -/
def xmlPrintVirtualMethodAttributes (d : Node) : Print Node Unit := do
  flagAttribute "virtual" (tu.tree d).declVirtualP
  flagAttribute "pure_virtual" (tu.tree d).declPureVirtualP
  xmlPrintOverridesMethodAttribute tu d

/-- `xml_print_throw_attribute`. -/
def xmlPrintThrowAttribute (ft : Node) (complete : Bool) : Print Node Unit :=
  Trace.whenSome (tu.tree ft).typeRaisesExceptions fun raises => do
    let refs ← Trace.collect raises fun t => xmlPrintTypeIdref tu t complete
    writeAttr "throw" (refs.intersperse (.str " "))

/-- `xml_print_befriending_attribute`. -/
def xmlPrintBefriendingAttribute (befriending : List Node) : Print Node Unit :=
  let frnds := befriending.filter fun frnd => tu.treeCode frnd ≠ .templateDecl
  Trace.when (frnds ≠ []) do
    let ids ← Trace.collect frnds fun frnd => addNode tu frnd false
    writeAttr "befriending" ((ids.map Piece.id).intersperse (.str " "))

/-- `xml_output_ellipsis`. -/
def xmlOutputEllipsis : Print Node Unit := do
  emit (.startTag 4 "Ellipsis")
  emit .emptyTag

/-- The attributes that `xml_output_unimplemented` writes. -/
def unimplementedAttributes (t : Node) (dn : Option Node) (function : Option String) : Print Node Unit := do
  Trace.whenSome dn xmlPrintIdAttribute
  writeAttr "tree_code" [.num (tu.treeCodeNumber (tu.treeCode t))]
  writeAttr "tree_code_name" [.str (tu.treeCode t).codeName]
  writeAttr "node" [.ptr (tu.address t)]
  Trace.whenSome function fun name => writeAttr "function" [.str name]

/-- `xml_output_unimplemented`, with the dump node of `dn` if there is one. -/
def xmlOutputUnimplemented (t : Node) (dn : Option Node) (function : Option String) : Print Node Unit := do
  emit (.startTag 2 "Unimplemented")
  unimplementedAttributes tu t dn function
  emit .emptyTag

end

end GccXml
