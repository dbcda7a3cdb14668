import GccXml.Xml.FileTable

namespace GccXml

/-! # `Xml.Description` — the description of the document

`do_xml_document` builds a description of the documents that `do_xml_output` prints: the elements, the attributes of
each with their types and uses, and which elements may stand in which. Every printing function has a twin that adds
its element or its attributes to the description. The functions here are these twins; a function that adds to an
element returns what it adds. -/

/-! ## Elements and attributes -/

/-- `xml_document_attribute_type`. -/
inductive XmlDocumentAttributeType
  | id | idref | idrefs | integer | boolean | string | enumAccess
  deriving DecidableEq, Repr

/-- `xml_document_attribute_use`. -/
inductive XmlDocumentAttributeUse
  | optional | required
  deriving DecidableEq, Repr

/-- `struct xml_document_attribute_s`. -/
structure XmlDocumentAttribute where
  name : String
  type : XmlDocumentAttributeType
  use : XmlDocumentAttributeUse
  value : Option String := none
  deriving DecidableEq, Repr

/-- `struct xml_document_subelement_s`, for elements `E`. -/
structure XmlDocumentSubelement (E : Type) where
  element : E
  required : Bool
  repeatable : Bool

/-- `struct xml_document_element_s`. -/
inductive XmlDocumentElement
  | mk (name : String) (attributes : List XmlDocumentAttribute)
      (subelements : List (XmlDocumentSubelement XmlDocumentElement))

namespace XmlDocumentElement

def name : XmlDocumentElement → String
  | mk name _ _ => name

def attributes : XmlDocumentElement → List XmlDocumentAttribute
  | mk _ attributes _ => attributes

def subelements : XmlDocumentElement → List (XmlDocumentSubelement XmlDocumentElement)
  | mk _ _ subelements => subelements

end XmlDocumentElement

/-- `xml_document_add_subelement`, with the element that its caller fills in. -/
def xmlDocumentAddSubelement (element : XmlDocumentElement) (required repeatable : Bool) :
    XmlDocumentSubelement XmlDocumentElement := ⟨element, required, repeatable⟩

/-! ## Attributes -/

/-- `xml_document_add_attribute_location`. -/
def xmlDocumentAddAttributeLocation (use : XmlDocumentAttributeUse) : List XmlDocumentAttribute :=
  [⟨"location", .string, .optional, none⟩, ⟨"file", .string, use, none⟩, ⟨"line", .integer, use, none⟩]

/-- `xml_document_add_attribute_endline`. -/
def xmlDocumentAddAttributeEndline (use : XmlDocumentAttributeUse) : List XmlDocumentAttribute :=
  [⟨"endline", .integer, use, none⟩]

/-- `xml_document_add_attribute_id`. -/
def xmlDocumentAddAttributeId : List XmlDocumentAttribute := [⟨"id", .id, .required, none⟩]

/-- `xml_document_add_attribute_name`. -/
def xmlDocumentAddAttributeName (use : XmlDocumentAttributeUse) : List XmlDocumentAttribute :=
  [⟨"name", .string, use, none⟩]

/-- `xml_document_add_attribute_mangled`. -/
def xmlDocumentAddAttributeMangled : List XmlDocumentAttribute := [⟨"mangled", .string, .required, none⟩]

/-- `xml_document_add_attribute_demangled`. -/
def xmlDocumentAddAttributeDemangled : List XmlDocumentAttribute := [⟨"demangled", .string, .optional, none⟩]

/-- An attribute that is written with the value 1 or not at all. -/
def xmlDocumentFlagAttribute (name : String) : List XmlDocumentAttribute := [⟨name, .boolean, .optional, some "0"⟩]

/-- `xml_document_add_attribute_mutable`. -/
def xmlDocumentAddAttributeMutable : List XmlDocumentAttribute := xmlDocumentFlagAttribute "mutable"

/-- `xml_document_add_attribute_type`. -/
def xmlDocumentAddAttributeType : List XmlDocumentAttribute := [⟨"type", .idref, .required, none⟩]

/-- `xml_document_add_attribute_returns`. -/
def xmlDocumentAddAttributeReturns : List XmlDocumentAttribute := [⟨"returns", .idref, .required, none⟩]

/-- `xml_document_add_attribute_base_type`. -/
def xmlDocumentAddAttributeBaseType : List XmlDocumentAttribute := [⟨"basetype", .idref, .required, none⟩]

/-- `xml_document_add_attribute_access`. -/
def xmlDocumentAddAttributeAccess : List XmlDocumentAttribute := [⟨"access", .enumAccess, .optional, some "public"⟩]

/-- `xml_document_add_attribute_context`. -/
def xmlDocumentAddAttributeContext (use : XmlDocumentAttributeUse) (doAccess : Bool) : List XmlDocumentAttribute :=
  ⟨"context", .idref, use, none⟩ :: if doAccess then xmlDocumentAddAttributeAccess else []

/-- `xml_document_add_attribute_explicit`. -/
def xmlDocumentAddAttributeExplicit : List XmlDocumentAttribute := [⟨"explicit", .integer, .optional, some "1"⟩]

/-- `xml_document_add_attribute_size`. -/
def xmlDocumentAddAttributeSize : List XmlDocumentAttribute := [⟨"size", .integer, .optional, none⟩]

/-- `xml_document_add_attribute_align`. -/
def xmlDocumentAddAttributeAlign : List XmlDocumentAttribute := [⟨"align", .integer, .required, none⟩]

/-- `xml_document_add_attribute_offset`. -/
def xmlDocumentAddAttributeOffset : List XmlDocumentAttribute := [⟨"offset", .integer, .optional, none⟩]

/-- `xml_document_add_attribute_const_method`. -/
def xmlDocumentAddAttributeConstMethod : List XmlDocumentAttribute := xmlDocumentFlagAttribute "const"

/-- `xml_document_add_attribute_static`. -/
def xmlDocumentAddAttributeStatic : List XmlDocumentAttribute := xmlDocumentFlagAttribute "static"

/-- `xml_document_add_attribute_overrides_method`. -/
def xmlDocumentAddAttributeOverridesMethod : List XmlDocumentAttribute := [⟨"overrides", .idrefs, .optional, none⟩]

/-- `xml_document_add_attribute_virtual_method`. -/
def xmlDocumentAddAttributeVirtualMethod : List XmlDocumentAttribute :=
  xmlDocumentFlagAttribute "virtual" ++ xmlDocumentFlagAttribute "pure_virtual" ++ xmlDocumentAddAttributeOverridesMethod

/-- `xml_document_add_attribute_extern`. -/
def xmlDocumentAddAttributeExtern : List XmlDocumentAttribute := xmlDocumentFlagAttribute "extern"

/-- `xml_document_add_attribute_inline`. -/
def xmlDocumentAddAttributeInline : List XmlDocumentAttribute := xmlDocumentFlagAttribute "inline"

/-- `xml_document_add_attribute_default_argument`. -/
def xmlDocumentAddAttributeDefaultArgument (use : XmlDocumentAttributeUse) : List XmlDocumentAttribute :=
  [⟨"default", .string, use, none⟩]

/-- `xml_document_add_attribute_init`. -/
def xmlDocumentAddAttributeInit : List XmlDocumentAttribute := [⟨"init", .string, .optional, none⟩]

/-- `xml_document_add_attribute_incomplete`; the source declares the name `init`. -/
def xmlDocumentAddAttributeIncomplete : List XmlDocumentAttribute := xmlDocumentFlagAttribute "init"

/-- `xml_document_add_attribute_abstract`. -/
def xmlDocumentAddAttributeAbstract : List XmlDocumentAttribute := xmlDocumentFlagAttribute "abstract"

/-- `xml_document_add_attribute_array`. -/
def xmlDocumentAddAttributeArray : List XmlDocumentAttribute :=
  [⟨"min", .integer, .required, some "0"⟩, ⟨"max", .integer, .required, none⟩]

/-- `xml_document_add_attribute_throw`. -/
def xmlDocumentAddAttributeThrow : List XmlDocumentAttribute := [⟨"throw", .idrefs, .optional, none⟩]

/-- `xml_document_add_attribute_attributes`. -/
def xmlDocumentAddAttributeAttributes : List XmlDocumentAttribute := [⟨"attributes", .string, .optional, none⟩]

/-- `xml_document_add_attribute_artificial`. -/
def xmlDocumentAddAttributeArtificial : List XmlDocumentAttribute := xmlDocumentFlagAttribute "artificial"

/-- `xml_document_add_attribute_bits`. -/
def xmlDocumentAddAttributeBits : List XmlDocumentAttribute := [⟨"bits", .integer, .optional, none⟩]

/-- `xml_document_add_attribute_befriending`. -/
def xmlDocumentAddAttributeBefriending : List XmlDocumentAttribute := [⟨"befriending", .idrefs, .optional, none⟩]

/-! ## Elements

Each function returns the subelements that it adds to its parent. -/

/-- What the `xml_document_add_*` functions add to a parent. -/
abbrev XmlDocumentContent := List (XmlDocumentSubelement XmlDocumentElement)

/-- An element that may be absent and may be repeated. -/
def xmlDocumentOptionalElement (name : String) (attributes : List XmlDocumentAttribute)
    (subelements : XmlDocumentContent := []) : XmlDocumentContent :=
  [xmlDocumentAddSubelement (.mk name attributes subelements) false true]

/-- `xml_document_add_element_ellipsis`. -/
def xmlDocumentAddElementEllipsis : XmlDocumentContent :=
  [xmlDocumentAddSubelement (.mk "Ellipsis" [] []) false false]

/-- `xml_document_add_element_unimplemented`. -/
def xmlDocumentAddElementUnimplemented : XmlDocumentContent :=
  xmlDocumentOptionalElement "Unimplemented" <|
    xmlDocumentAddAttributeId ++
      [⟨"tree_code", .integer, .required, none⟩, ⟨"tree_code_name", .string, .required, none⟩,
        ⟨"node", .string, .required, none⟩, ⟨"function", .string, .optional, none⟩]

/-- `xml_document_add_element_namespace_decl`. -/
def xmlDocumentAddElementNamespaceDecl : XmlDocumentContent :=
  xmlDocumentOptionalElement "Namespace"
      (xmlDocumentAddAttributeId ++ xmlDocumentAddAttributeName .required ++
        xmlDocumentAddAttributeContext .required false ++ xmlDocumentAddAttributeAttributes ++
        [⟨"members", .idrefs, .optional, none⟩] ++ xmlDocumentAddAttributeMangled ++ xmlDocumentAddAttributeDemangled) ++
    xmlDocumentOptionalElement "NamespaceAlias"
      (xmlDocumentAddAttributeId ++ xmlDocumentAddAttributeName .required ++
        xmlDocumentAddAttributeContext .required false ++ [⟨"namespace", .idref, .required, none⟩] ++
        xmlDocumentAddAttributeMangled ++ xmlDocumentAddAttributeDemangled)

/-- `xml_document_add_element_typedef`. -/
def xmlDocumentAddElementTypedef : XmlDocumentContent :=
  xmlDocumentOptionalElement "Typedef" <|
    xmlDocumentAddAttributeId ++ xmlDocumentAddAttributeName .required ++ xmlDocumentAddAttributeType ++
      xmlDocumentAddAttributeContext .required true ++ xmlDocumentAddAttributeLocation .required ++
      xmlDocumentAddAttributeAttributes

/-- `xml_document_add_element_argument`. -/
def xmlDocumentAddElementArgument : XmlDocumentContent :=
  xmlDocumentOptionalElement "Argument" <|
    xmlDocumentAddAttributeName .optional ++ xmlDocumentAddAttributeType ++ xmlDocumentAddAttributeLocation .optional ++
      xmlDocumentAddAttributeDefaultArgument .optional ++ xmlDocumentAddAttributeAttributes

/-- `xml_document_add_element_function_helper`. -/
def xmlDocumentAddElementFunctionHelper (tag : String) (doReturns doAccess doConst doVirtual doStatic doArtificial
    doExplicit allowArguments allowEllipsis : Bool) : XmlDocumentContent :=
  xmlDocumentOptionalElement tag
    (xmlDocumentAddAttributeId ++ xmlDocumentAddAttributeName .required ++
      (if doReturns then xmlDocumentAddAttributeReturns else []) ++
      (if doConst then xmlDocumentAddAttributeConstMethod else []) ++
      (if doVirtual then xmlDocumentAddAttributeVirtualMethod else []) ++
      (if doStatic then xmlDocumentAddAttributeStatic else []) ++
      (if doArtificial then xmlDocumentAddAttributeArtificial else []) ++
      (if doExplicit then xmlDocumentAddAttributeExplicit else []) ++ xmlDocumentAddAttributeThrow ++
      xmlDocumentAddAttributeContext .required doAccess ++ xmlDocumentAddAttributeMangled ++
      xmlDocumentAddAttributeDemangled ++ xmlDocumentAddAttributeLocation .required ++
      xmlDocumentAddAttributeEndline .optional ++ xmlDocumentAddAttributeExtern ++ xmlDocumentAddAttributeInline ++
      xmlDocumentAddAttributeAttributes ++ xmlDocumentAddAttributeBefriending)
    ((if allowArguments then xmlDocumentAddElementArgument else []) ++
      if allowEllipsis then xmlDocumentAddElementEllipsis else [])

/-- `xml_document_add_element_function`. The flags are returns, access, const, virtual, static, artificial, explicit,
    arguments and ellipsis. -/
def xmlDocumentAddElementFunction : XmlDocumentContent :=
  xmlDocumentAddElementFunctionHelper "Constructor" false true false false false true true true true ++
    xmlDocumentAddElementFunctionHelper "Destructor" false true false true false true false false false ++
    xmlDocumentAddElementFunctionHelper "Converter" true true true true false false false false false ++
    xmlDocumentAddElementFunctionHelper "OperatorMethod" true true true true true false false true false ++
    xmlDocumentAddElementFunctionHelper "OperatorFunction" true false false false true false false true false ++
    xmlDocumentAddElementFunctionHelper "Method" true true true true true false false true true ++
    xmlDocumentAddElementFunctionHelper "Function" true false false false true false false true true

/-- `xml_document_add_element_var_decl`. -/
def xmlDocumentAddElementVarDecl : XmlDocumentContent :=
  xmlDocumentOptionalElement "Variable" <|
    xmlDocumentAddAttributeId ++ xmlDocumentAddAttributeName .required ++ xmlDocumentAddAttributeType ++
      xmlDocumentAddAttributeInit ++ xmlDocumentAddAttributeContext .required true ++ xmlDocumentAddAttributeMangled ++
      xmlDocumentAddAttributeDemangled ++ xmlDocumentAddAttributeLocation .required ++ xmlDocumentAddAttributeStatic ++
      xmlDocumentAddAttributeExtern ++ xmlDocumentAddAttributeArtificial ++ xmlDocumentAddAttributeAttributes

/-- `xml_document_add_element_field_decl`. -/
def xmlDocumentAddElementFieldDecl : XmlDocumentContent :=
  xmlDocumentOptionalElement "Field" <|
    xmlDocumentAddAttributeId ++ xmlDocumentAddAttributeName .required ++ xmlDocumentAddAttributeBits ++
      xmlDocumentAddAttributeType ++ xmlDocumentAddAttributeOffset ++ xmlDocumentAddAttributeContext .required true ++
      xmlDocumentAddAttributeMangled ++ xmlDocumentAddAttributeDemangled ++ xmlDocumentAddAttributeMutable ++
      xmlDocumentAddAttributeLocation .required ++ xmlDocumentAddAttributeAttributes

/-- `xml_document_add_element_record_type_base`. -/
def xmlDocumentAddElementRecordTypeBase : XmlDocumentContent :=
  xmlDocumentOptionalElement "Base" <|
    xmlDocumentAddAttributeType ++ xmlDocumentAddAttributeAccess ++ xmlDocumentFlagAttribute "virtual" ++
      [⟨"offset", .integer, .optional, some "0"⟩]

/-- `xml_document_add_element_record_type_helper`. -/
def xmlDocumentAddElementRecordTypeHelper (tag : String) : XmlDocumentContent :=
  xmlDocumentOptionalElement tag
    (xmlDocumentAddAttributeId ++ xmlDocumentAddAttributeName .optional ++
      xmlDocumentAddAttributeContext .required true ++ xmlDocumentAddAttributeAbstract ++
      xmlDocumentAddAttributeIncomplete ++ xmlDocumentAddAttributeMangled ++ xmlDocumentAddAttributeDemangled ++
      xmlDocumentAddAttributeLocation .required ++ xmlDocumentAddAttributeArtificial ++
      xmlDocumentAddAttributeAttributes ++ xmlDocumentAddAttributeSize ++ xmlDocumentAddAttributeAlign ++
      xmlDocumentAddAttributeBefriending ++
      [⟨"members", .idrefs, .optional, none⟩, ⟨"bases", .string, .optional, none⟩])
    xmlDocumentAddElementRecordTypeBase

/-- `xml_document_add_element_record_type`. -/
def xmlDocumentAddElementRecordType : XmlDocumentContent :=
  xmlDocumentAddElementRecordTypeHelper "Class" ++ xmlDocumentAddElementRecordTypeHelper "Struct" ++
    xmlDocumentAddElementRecordTypeHelper "Union"

/-- `xml_document_add_element_fundamental_type`. -/
def xmlDocumentAddElementFundamentalType : XmlDocumentContent :=
  xmlDocumentOptionalElement "FundamentalType" <|
    xmlDocumentAddAttributeId ++ xmlDocumentAddAttributeName .required ++ xmlDocumentAddAttributeAttributes ++
      xmlDocumentAddAttributeSize ++ xmlDocumentAddAttributeAlign

/-- `xml_document_add_element_function_type`. -/
def xmlDocumentAddElementFunctionType : XmlDocumentContent :=
  xmlDocumentOptionalElement "FunctionType"
    (xmlDocumentAddAttributeId ++ xmlDocumentAddAttributeReturns ++ xmlDocumentAddAttributeAttributes)
    (xmlDocumentAddElementArgument ++ xmlDocumentAddElementEllipsis)

/-- `xml_document_add_element_method_type`. -/
def xmlDocumentAddElementMethodType : XmlDocumentContent :=
  xmlDocumentOptionalElement "MethodType"
    (xmlDocumentAddAttributeId ++ xmlDocumentAddAttributeBaseType ++ xmlDocumentAddAttributeReturns ++
      xmlDocumentAddAttributeAttributes ++ xmlDocumentFlagAttribute "const" ++ xmlDocumentFlagAttribute "volatile")
    (xmlDocumentAddElementArgument ++ xmlDocumentAddElementEllipsis)

/-- The common body of `xml_document_add_element_pointer_type` and `xml_document_add_element_reference_type`. -/
def xmlDocumentAddElementIndirectType (tag : String) : XmlDocumentContent :=
  xmlDocumentOptionalElement tag <|
    xmlDocumentAddAttributeId ++ xmlDocumentAddAttributeType ++ xmlDocumentAddAttributeAttributes ++
      xmlDocumentAddAttributeSize ++ xmlDocumentAddAttributeAlign

/-- `xml_document_add_element_pointer_type`. -/
def xmlDocumentAddElementPointerType : XmlDocumentContent := xmlDocumentAddElementIndirectType "PointerType"

/-- `xml_document_add_element_reference_type`. -/
def xmlDocumentAddElementReferenceType : XmlDocumentContent := xmlDocumentAddElementIndirectType "ReferenceType"

/-- `xml_document_add_element_offset_type`. -/
def xmlDocumentAddElementOffsetType : XmlDocumentContent :=
  xmlDocumentOptionalElement "OffsetType" <|
    xmlDocumentAddAttributeId ++ xmlDocumentAddAttributeBaseType ++ xmlDocumentAddAttributeType ++
      xmlDocumentAddAttributeAttributes ++ xmlDocumentAddAttributeSize ++ xmlDocumentAddAttributeAlign

/-- `xml_document_add_element_array_type`. -/
def xmlDocumentAddElementArrayType : XmlDocumentContent :=
  xmlDocumentOptionalElement "ArrayType" <|
    xmlDocumentAddAttributeId ++ xmlDocumentAddAttributeArray ++ xmlDocumentAddAttributeType ++
      xmlDocumentAddAttributeAttributes ++ xmlDocumentAddAttributeSize ++ xmlDocumentAddAttributeAlign

/-- `xml_document_add_element_enum_value`. -/
def xmlDocumentAddElementEnumValue : XmlDocumentContent :=
  xmlDocumentOptionalElement "EnumValue" (xmlDocumentAddAttributeName .required ++ xmlDocumentAddAttributeInit)

/-- `xml_document_add_element_enumeral_type`. -/
def xmlDocumentAddElementEnumeralType : XmlDocumentContent :=
  xmlDocumentOptionalElement "Enumeration"
    (xmlDocumentAddAttributeId ++ xmlDocumentAddAttributeName .required ++
      xmlDocumentAddAttributeContext .required true ++ xmlDocumentAddAttributeLocation .required ++
      xmlDocumentAddAttributeAttributes ++ xmlDocumentAddAttributeArtificial ++ xmlDocumentAddAttributeSize ++
      xmlDocumentAddAttributeAlign)
    (xmlDocumentAddElementEnumValue ++ xmlDocumentAddElementUnimplemented)

/-- `xml_document_add_element_cv_qualified_type`. -/
def xmlDocumentAddElementCvQualifiedType : XmlDocumentContent :=
  xmlDocumentOptionalElement "CvQualifiedType" <|
    xmlDocumentAddAttributeId ++ xmlDocumentAddAttributeType ++ xmlDocumentFlagAttribute "const" ++
      xmlDocumentFlagAttribute "volatile" ++ xmlDocumentFlagAttribute "restrict"

/-- **The description that `do_xml_document` records**; the fundamental types are added twice. -/
def doXmlDocument : XmlDocumentElement :=
  .mk "GCC-XML" [] <|
    xmlDocumentAddElementFundamentalType ++ xmlDocumentAddElementUnimplemented ++ xmlDocumentAddElementNamespaceDecl ++
      xmlDocumentAddElementTypedef ++ xmlDocumentAddElementFunction ++ xmlDocumentAddElementVarDecl ++
      xmlDocumentAddElementFieldDecl ++ xmlDocumentAddElementRecordType ++ xmlDocumentAddElementFundamentalType ++
      xmlDocumentAddElementFunctionType ++ xmlDocumentAddElementMethodType ++ xmlDocumentAddElementPointerType ++
      xmlDocumentAddElementReferenceType ++ xmlDocumentAddElementOffsetType ++ xmlDocumentAddElementArrayType ++
      xmlDocumentAddElementEnumeralType ++ xmlDocumentAddElementCvQualifiedType

/-! ## What the description says -/

namespace XmlDocumentElement

mutual

/-- The element and those below it. -/
def all : XmlDocumentElement → List XmlDocumentElement
  | mk name attributes subelements => mk name attributes subelements :: allContent subelements

/-- The elements of a content and those below them. -/
def allContent : List (XmlDocumentSubelement XmlDocumentElement) → List XmlDocumentElement
  | [] => []
  | ⟨element, _, _⟩ :: rest => all element ++ allContent rest

end

/-- The elements `tag` that the description allows in an element `parent`. -/
def declared (description : XmlDocumentElement) (parent tag : String) : List XmlDocumentElement :=
  (description.all.filter (·.name = parent)).flatMap fun e =>
    (e.subelements.map (·.element)).filter (·.name = tag)

/-- An element whose attributes have the names `names` has only attributes that are declared for it, and it has the
    required ones. -/
def Describes (e : XmlDocumentElement) (names : List String) : Prop :=
  (∀ name ∈ names, name ∈ e.attributes.map (·.name)) ∧ ∀ a ∈ e.attributes, a.use = .required → a.name ∈ names

instance (e : XmlDocumentElement) (names : List String) : Decidable (e.Describes names) :=
  inferInstanceAs (Decidable (_ ∧ _))

end XmlDocumentElement

end GccXml
