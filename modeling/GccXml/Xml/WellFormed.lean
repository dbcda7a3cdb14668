import GccXml.Xml.SafeText
import GccXml.Xml.References

namespace GccXml

/-! # `Xml.WellFormed` — the document is well-formed XML

The text of the document is the text of its fragments. The decision between `/>` and `>` and the end tag that honours
it are in one entry, so the nesting can be read off `nodeEntry`; the attribute names are those of the blocks, and the
values are pieces that are safe.

The grammar is that of `Lib.XmlGrammar`, with tags and content as predicates on texts. An entry is a node with what is
printed below it, an element with its children; the content model `childTags` says which tags these may have. An entry
is well formed if its tags are in their places, no attribute is written twice, and its values are safe. The parts come
from three sides: places and names are found by going through the element functions (`nodeEntry_shape`), string values
are safe by `SafeText`, and every other piece is made of digits, letters and signs.

From an entry the text follows by the grammar: what stands before any content of the parent is content of the parent
with it. So the entries can be added one after the other, from the last to the first, behind the head of the document
and before the files and the end of the root element. -/

open DumpInfo
open XmlGrammar (isName isSpace isPlain AttText attrText openTag WellFormedAttrs IsElement IsContent IsDocument)

/-! ## The text of fragments -/

section
variable {Node : Type}

/-- What the `fprintf` calls behind a fragment write. -/
def Frag.text : OutFrag Node → List Char
  | .prolog text => text.toList
  | .startTag indent tag => List.replicate indent ' ' ++ '<' :: tag.toList
  | .attr name value => ' ' :: name.toList ++ "=\"".toList ++ (valueText value).toList ++ "\"".toList
  | .endStartTag => ">\n".toList
  | .emptyTag => "/>\n".toList
  | .endTag indent tag => List.replicate indent ' ' ++ "</".toList ++ tag.toList ++ ">\n".toList
  | .blanks count => List.replicate count ' '

/-- The text of a document. -/
def documentText (file : List (OutFrag Node)) : List Char := file.flatMap Frag.text

/-! ## The content model -/

/-- The tags that `xml_output_function_decl` chooses from. -/
def functionTags : List String :=
  ["Constructor", "Destructor", "Converter", "OperatorMethod", "OperatorFunction", "Method", "Function"]

/-- The tags that `xml_output_record_type` chooses from. -/
def recordTags : List String := ["Class", "Struct", "Union"]

/-- The tags of the elements in the root element. -/
def topLevelTags : List String :=
  functionTags ++ recordTags ++
    ["Namespace", "NamespaceAlias", "Typedef", "Variable", "Field", "ArrayType", "PointerType", "ReferenceType",
      "FunctionType", "MethodType", "OffsetType", "Enumeration", "FundamentalType", "CvQualifiedType",
      "Unimplemented", "File"]

/-- **The content model**: the tags of the elements that may stand in an element with the tag `tag`. -/
def childTags (tag : String) : List String :=
  if tag = "GCC_XML" then topLevelTags
  else if tag ∈ "FunctionType" :: "MethodType" :: functionTags then ["Argument", "Ellipsis"]
  else if tag ∈ recordTags then ["Base"]
  else if tag = "Enumeration" then ["EnumValue", "Unimplemented"]
  else []

/-- The content model, over lists of characters. -/
def Allowed (parent child : List Char) : Prop := ∃ tag, parent = String.toList tag ∧ ∃ t ∈ childTags tag, child = t.toList

/-! ## Well-formed elements -/

/-- The attribute names of an element are names, and none is repeated. -/
structure Element.Named {ι φ : Type} (e : Element Node ι φ) : Prop where
  names : ∀ a ∈ e.attrs, isName a.1.toList = true
  nodup : (e.attrs.map (·.1)).Nodup

/-- The attributes are among some that have distinct names. -/
theorem Element.Named.of_sublist {ι φ : Type} {e : Element Node ι φ} {names : List String}
    (hsub : List.Sublist (e.attrs.map (·.1)) names) (hnames : names.Nodup)
    (hname : ∀ name ∈ names, isName name.toList = true) : e.Named where
  names a ha := hname a.1 (hsub.subset (List.mem_map.mpr ⟨a, ha, rfl⟩))
  nodup := hsub.nodup hnames

/-- The tag and the attributes of an element make a well-formed tag. -/
structure Element.WellFormed (e : Element Node Nat Nat) : Prop where
  tag : isName e.tag.toList = true
  named : e.Named
  values : ∀ a ∈ e.attrs, SafeText (valueText a.2)

/-- The attributes of an element as text. -/
def Element.attrTexts (e : Element Node Nat Nat) : List (List Char × List Char) :=
  e.attrs.map fun a => (a.1.toList, (valueText a.2).toList)

namespace Element.WellFormed

variable {e : Element Node Nat Nat}

theorem attrs (h : e.WellFormed) : WellFormedAttrs e.attrTexts := by
  have hmap : e.attrTexts.map (·.1) = (e.attrs.map (·.1)).map String.toList := by
    simp only [Element.attrTexts, List.map_map, Function.comp_def]
  refine ⟨fun a ha => ?_, fun a ha => ?_, ?_⟩
  · obtain ⟨b, hb, rfl⟩ := List.mem_map.mp ha
    exact h.named.names b hb
  · obtain ⟨b, hb, rfl⟩ := List.mem_map.mp ha
    exact h.values b hb
  · rw [hmap]
    exact h.named.nodup.map fun _ _ => String.toList_inj.mp

/-- An element that is closed at once. -/
theorem isElement (h : e.WellFormed) : IsElement Allowed e.tag.toList (openTag e.tag.toList e.attrTexts ++ ['/', '>']) :=
  .empty h.tag h.attrs

end Element.WellFormed

/-- The text of a start tag is its indentation and the tag. -/
theorem text_openFrags (e : Element Node Nat Nat) (indent : Nat) :
    (e.openFrags indent).flatMap Frag.text =
      List.replicate indent ' ' ++ openTag e.tag.toList e.attrTexts := by
  have hattr : ∀ a : String × List (OutPiece Node),
      Frag.text (Frag.ofAttr a) = attrText (a.1.toList, (valueText a.2).toList) := fun a => by
    simp [Frag.text, Frag.ofAttr, attrText]
  have hattrs : (e.attrs.map Frag.ofAttr).flatMap Frag.text = e.attrTexts.flatMap attrText := by
    simp only [Element.attrTexts, List.flatMap_map, hattr]
  rw [Element.openFrags, List.flatMap_cons, hattrs]
  simp [Frag.text, openTag]

theorem isSpace_replicate (count : Nat) : ∀ c ∈ List.replicate count ' ', isSpace c = true := by
  intro c hc
  rw [List.eq_of_mem_replicate hc]
  rfl

variable {parent : String} {cs : List Char}

/-- The text of a child can stand before any content of an element that allows it. -/
theorem isContent_child {child : Child Node Nat Nat} (h : child.element.WellFormed)
    (hallowed : child.element.tag ∈ childTags parent) (hcs : IsContent Allowed parent.toList cs) :
    IsContent Allowed parent.toList (child.frags.flatMap Frag.text ++ cs) := by
  have hblanks : ∀ c ∈ (child.blanks.toList.map Frag.blanks).flatMap (@Frag.text Node), isSpace c = true := by
    cases child.blanks with
    | none => simp
    | some count => simpa [Frag.text] using isSpace_replicate count
  have hnewline : IsContent Allowed parent.toList ('\n' :: cs) := .space (by decide) hcs
  have helement : IsContent Allowed parent.toList
      (openTag child.element.tag.toList child.element.attrTexts ++ ['/', '>'] ++ '\n' :: cs) :=
    .element ⟨parent, rfl, _, hallowed, rfl⟩ h.isElement hnewline
  have hindented := IsContent.spaces hblanks (IsContent.spaces (isSpace_replicate child.indent) helement)
  simpa [Child.frags, text_openFrags, Frag.text] using hindented

/-- An entry whose elements are well formed, and whose children its element allows. -/
structure Entry.WellFormed (e : Entry Node Nat Nat) : Prop where
  element : e.element.WellFormed
  children : ∀ child ∈ e.children.getD [], child.element.WellFormed ∧ child.element.tag ∈ childTags e.element.tag

/-- **The text of an entry** can stand before any content of an element that allows it: what was opened is closed. -/
theorem isContent_entry {e : Entry Node Nat Nat} (h : e.WellFormed) (hallowed : e.element.tag ∈ childTags parent)
    (hcs : IsContent Allowed parent.toList cs) : IsContent Allowed parent.toList (e.frags.flatMap Frag.text ++ cs) := by
  have hnewline : IsContent Allowed parent.toList ('\n' :: cs) := .space (by decide) hcs
  have hallowed : Allowed parent.toList e.element.tag.toList := ⟨parent, rfl, _, hallowed, rfl⟩
  cases hchildren : e.children with
  | none =>
      have helement : IsContent Allowed parent.toList
          (openTag e.element.tag.toList e.element.attrTexts ++ ['/', '>'] ++ '\n' :: cs) :=
        .element hallowed h.element.isElement hnewline
      have hindented := IsContent.spaces (isSpace_replicate 2) helement
      simpa [Entry.frags, hchildren, text_openFrags, Frag.text] using hindented
  | some children =>
      have hwf := h.children
      rw [hchildren, Option.getD_some] at hwf
      have hindent : IsContent Allowed e.element.tag.toList (List.replicate 2 ' ') := by
        simpa using IsContent.spaces (isSpace_replicate 2) IsContent.nil
      have hcontent : IsContent Allowed e.element.tag.toList
          ('\n' :: children.flatMap (fun child => child.frags.flatMap Frag.text) ++ List.replicate 2 ' ') :=
        .space (by decide) <| IsContent.flatMap
          (fun child hchild _ hcs => isContent_child (hwf child hchild).1 (hwf child hchild).2 hcs) hindent
      have helement := IsContent.element hallowed (.nested h.element.tag h.element.attrs hcontent) hnewline
      have hindented := IsContent.spaces (isSpace_replicate 2) helement
      simpa [Entry.frags, hchildren, text_openFrags, Frag.text, XmlGrammar.endTag, List.flatMap_assoc] using hindented

end

/-! ## Values

A piece that is no string is made of digits, letters and signs. -/

theorem isPlain_digitChar (d : Nat) : isPlain d.digitChar = true := by
  have hhex : ∀ d < 16, isPlain (Nat.digitChar d) = true := by decide
  by_cases hd : d < 16
  · exact hhex d hd
  · have hstar : d.digitChar = '*' := Nat.digitChar_eq_star.mpr (by omega)
    rw [hstar]
    decide

theorem isPlain_toDigits {b : Nat} (hb : 1 < b) (n : Nat) : ∀ c ∈ Nat.toDigits b n, isPlain c = true := by
  induction n using Nat.strongRecOn with
  | ind n ih =>
      intro c hc
      rw [Nat.toDigits_eq_if hb] at hc
      split at hc
      · rw [List.mem_singleton.mp hc]
        exact isPlain_digitChar n
      · rename_i hn
        rcases List.mem_append.mp hc with hc | hc
        · exact ih (n / b) (Nat.div_lt_self (by omega) hb) c hc
        · rw [List.mem_singleton.mp hc]
          exact isPlain_digitChar _

theorem plainText_ofList {cs : List Char} (h : ∀ c ∈ cs, isPlain c = true) : PlainText (String.ofList cs) := by
  unfold PlainText
  rw [String.toList_ofList]
  exact h

theorem Quals.suffix_plain (q : Quals) : ∀ c ∈ q.suffix, isPlain c = true := by
  have hall : q.suffix.all isPlain = true := by
    obtain ⟨c, v, r⟩ := q
    cases c <;> cases v <;> cases r <;> decide
  exact List.all_eq_true.mp hall

theorem refText_plain (i : Nat) (q : Quals) : PlainText (refText i q) := by
  refine plainText_ofList fun c hc => ?_
  rcases List.mem_append.mp hc with hc | hc
  · rcases List.mem_cons.mp hc with rfl | hc
    · decide
    · exact isPlain_toDigits (by decide) i c hc
  · exact q.suffix_plain c hc

theorem fileText_plain (i : Nat) : PlainText (fileText i) := by
  refine plainText_ofList fun c hc => ?_
  rcases List.mem_cons.mp hc with rfl | hc
  · decide
  · exact isPlain_toDigits (by decide) i c hc

theorem ptrText_plain (address : Nat) : PlainText (ptrText address) := by
  unfold ptrText
  split
  · decide
  · refine plainText_ofList fun c hc => ?_
    rcases List.mem_cons.mp hc with rfl | hc
    · decide
    rcases List.mem_cons.mp hc with rfl | hc
    · decide
    · exact isPlain_toDigits (by decide) address c hc

theorem numText_plain (value : Int) : PlainText (numText value) := by
  cases value with
  | ofNat n => exact plainText_ofList (isPlain_toDigits (by decide) n)
  | negSucc n =>
      refine plainText_ofList fun c hc => ?_
      rcases List.mem_cons.mp hc with rfl | hc
      · decide
      · exact isPlain_toDigits (by decide) _ c hc

section
variable {Node : Type}

/-- A piece is safe when its string is, if it is a string. -/
theorem safeText_piece {x : OutPiece Node} (h : ∀ s ∈ x.str?, SafeText s) : SafeText x.text := by
  cases x with
  | str text => exact h text rfl
  | num value => exact (numText_plain value).safe
  | ptr address => exact (ptrText_plain address).safe
  | file index => exact (fileText_plain index).safe
  | id index => exact (refText_plain index _).safe
  | typeId t index q => exact (refText_plain index q).safe

theorem safeText_value {value : List (OutPiece Node)} (h : ∀ s ∈ value.filterMap Piece.str?, SafeText s) :
    SafeText (valueText value) := by
  unfold SafeText valueText
  rw [String.toList_ofList]
  exact .flatMap fun x hx => safeText_piece fun s hs => h s (List.mem_filterMap.mpr ⟨x, hx, hs⟩)

theorem str?_fill {ι φ : Type} (index : ι → Nat) (fileIndex : φ → Nat) (x : Piece Node ι φ) :
    (x.fill index fileIndex).str? = x.str? := by
  cases x <;> rfl

end

/-! ## Names -/

section
variable {Node : Type}

/-- An element with the attributes of a block, whose names are distinct. -/
theorem AttrBlock.named {names : List String} {p : Print Node Unit} (hp : AttrBlock names p) (tag : String)
    (hnames : names.Nodup) (hname : ∀ name ∈ names, isName name.toList = true) :
    (⟨tag, attrsOf p⟩ : SymElement Node).Named := .of_sublist hp.names hnames hname

/-- The shape of an entry: where its element and its children may stand, and the names of their attributes. -/
structure Entry.Shape {ι φ : Type} (e : Entry Node ι φ) : Prop where
  named : e.element.Named
  tag : e.element.tag ∈ topLevelTags
  children : ∀ child ∈ e.children.getD [], child.element.Named ∧ child.element.tag ∈ childTags e.element.tag

/-- An element that is closed at once. -/
theorem Entry.Shape.empty {names : List String} {p : Print Node Unit} {tag : String} (hp : AttrBlock names p)
    (hnames : names.Nodup) (hname : ∀ name ∈ names, isName name.toList = true) (htag : tag ∈ topLevelTags) :
    (⟨⟨tag, attrsOf p⟩, none⟩ : SymEntry Node).Shape :=
  ⟨hp.named tag hnames hname, htag, fun child hchild => by simp at hchild⟩

/-- An element with children. -/
theorem Entry.Shape.nested {names : List String} {p : Print Node Unit} {tag : String} {children : List (SymChild Node)}
    (hp : AttrBlock names p) (hnames : names.Nodup) (hname : ∀ name ∈ names, isName name.toList = true)
    (htag : tag ∈ topLevelTags)
    (hchildren : ∀ child ∈ children, child.element.Named ∧ child.element.tag ∈ childTags tag) :
    (⟨⟨tag, attrsOf p⟩, some children⟩ : SymEntry Node).Shape :=
  ⟨hp.named tag hnames hname, htag, hchildren⟩

theorem childTags_of_function {tag : String} (h : tag ∈ "FunctionType" :: "MethodType" :: functionTags) :
    childTags tag = ["Argument", "Ellipsis"] := by
  have hroot : tag ≠ "GCC_XML" := by
    rintro rfl
    exact absurd h (by decide)
  unfold childTags
  rw [if_neg hroot, if_pos h]

theorem childTags_of_record {tag : String} (h : tag ∈ recordTags) : childTags tag = ["Base"] := by
  simp only [recordTags, List.mem_cons, List.not_mem_nil, or_false] at h
  rcases h with rfl | rfl | rfl <;> decide

variable [DecidableEq Node] (tu : TranslationUnit Node)

omit [DecidableEq Node] in
theorem functionShape_tag_mem_functionTags (fd : Node) : (functionShape tu fd).tag ∈ functionTags := by
  unfold functionShape
  dsimp only
  split_ifs <;> simp [functionTags]

omit [DecidableEq Node] in
theorem recordTag_mem_recordTags (rt : Node) : recordTag tu rt ∈ recordTags := by
  unfold recordTag
  split_ifs <;> decide

/-- The children of a function. -/
theorem argumentChildren_named {c : Bool} {args : List (Option (ParmDecl Node) × ArgType Node)} {endVoid : Bool} :
    ∀ child ∈ argumentChildren tu c args endVoid,
      child.element.Named ∧ child.element.tag ∈ ["Argument", "Ellipsis"] := by
  intro child hchild
  rcases List.mem_append.mp hchild with hchild | hchild
  · obtain ⟨arg, -, rfl⟩ := List.mem_map.mp hchild
    exact ⟨(argumentAttributes_block tu arg.1 arg.2 c).named _ (by decide) (by decide), List.mem_cons_self⟩
  · cases endVoid with
    | true => simp [ellipsisChild] at hchild
    | false =>
        rw [List.mem_singleton.mp hchild]
        exact ⟨⟨fun a ha => by simp at ha, List.nodup_nil⟩, by simp⟩

omit [DecidableEq Node] in
theorem enumValueChild_named (tv : Option String × Node) :
    (enumValueChild tu tv).element.Named ∧ (enumValueChild tu tv).element.tag ∈ childTags "Enumeration" := by
  have hvalue : "EnumValue" ∈ childTags "Enumeration" := by decide
  have hunimplemented : "Unimplemented" ∈ childTags "Enumeration" := by decide
  unfold enumValueChild
  split
  · exact ⟨(enumValueAttributes_block tu tv.1 tv.2).named _ (by decide) (by decide), hvalue⟩
  · exact ⟨(unimplementedAttributes_block tu tv.2 none _).named _ (by decide) (by decide), hunimplemented⟩

theorem mainVariantEntry_shape {n : Node} {c : Bool} {e : SymEntry Node} (h : mainVariantEntry tu n c = some e) :
    e.Shape := by
  unfold mainVariantEntry at h
  split at h <;> cases h
  -- the children of classes are their bases, which an incomplete class does not print
  case h_1 | h_2 | h_3 =>
    have htag := recordTag_mem_recordTags tu n
    refine ⟨(recordAttributes_block tu n c).named _ (by decide) (by decide), ?_, fun child hchild => ?_⟩
    · exact List.mem_append_left _ (List.mem_append_right _ htag)
    · rw [childTags_of_record htag]
      dsimp only at hchild
      unfold recordChildren at hchild
      dsimp only at hchild
      split at hchild
      · simp at hchild
      · obtain ⟨base, -, rfl⟩ := List.mem_map.mp hchild
        exact ⟨(baseAttributes_block base _).named _ (by decide) (by decide), List.mem_cons_self⟩
  case h_4 => exact .empty (arrayTypeAttributes_block tu n c) (by decide) (by decide) (by decide)
  -- pointers and references
  case h_5 | h_6 => exact .empty (indirectTypeAttributes_block tu n) (by decide) (by decide) (by decide)
  case h_7 =>
    refine .nested (functionTypeAttributes_block tu n c) (by decide) (by decide) (by decide) ?_
    rw [childTags_of_function List.mem_cons_self]
    exact argumentChildren_named tu
  case h_8 =>
    refine .nested (methodTypeAttributes_block tu n c) (by decide) (by decide) (by decide) ?_
    rw [childTags_of_function (List.mem_cons_of_mem _ List.mem_cons_self)]
    exact argumentChildren_named tu
  case h_9 => exact .empty (offsetTypeAttributes_block tu n c) (by decide) (by decide) (by decide)
  case h_10 =>
    refine .nested (enumeralTypeAttributes_block tu n) (by decide) (by decide) (by decide) fun child hchild => ?_
    obtain ⟨tv, -, rfl⟩ := List.mem_map.mp hchild
    exact enumValueChild_named tu tv
  all_goals exact .empty (fundamentalTypeAttributes_block tu n) (by decide) (by decide) (by decide)

/-- **Every entry has its place**: a tag that the root element allows, children that this tag allows, and no
    attribute name twice. -/
theorem nodeEntry_shape {n : Node} {c : Bool} {e : SymEntry Node} (h : nodeEntry tu n c = some e) : e.Shape := by
  unfold nodeEntry at h
  split at h
  case h_1 =>
    cases h
    split
    · exact .empty (namespaceAttributes_block tu n c) (by decide) (by decide) (by decide)
    · exact .empty (namespaceAliasAttributes_block tu n) (by decide) (by decide) (by decide)
  case h_2 => cases h; exact .empty (typedefAttributes_block tu n c) (by decide) (by decide) (by decide)
  case h_3 =>
    cases h
    have htag := functionShape_tag_mem_functionTags tu n
    refine ⟨(functionAttributes_block tu n c).named _ (by decide) (by decide), ?_, fun child hchild => ?_⟩
    · exact List.mem_append_left _ (List.mem_append_left _ htag)
    · rw [childTags_of_function (List.mem_cons_of_mem _ (List.mem_cons_of_mem _ htag))]
      dsimp only at hchild
      unfold functionChildren at hchild
      dsimp only at hchild
      split at hchild
      · simp at hchild
      · exact argumentChildren_named tu child hchild
  case h_4 => cases h; exact .empty (varDeclAttributes_block tu n c) (by decide) (by decide) (by decide)
  case h_5 => cases h; exact .empty (fieldDeclAttributes_block tu n c) (by decide) (by decide) (by decide)
  case h_22 =>
    cases h
    exact .empty (unimplementedAttributes_block tu n (some n) none) (by decide) (by decide) (by decide)
  -- the codes of types share one branch: a main variant, another one, or nothing
  all_goals
    split at h
    · exact mainVariantEntry_shape tu h
    · unfold variantEntry at h
      split at h
      · cases h
        exact .empty (cvQualifiedTypeAttributes_block n _ _) (by decide) (by decide) (by decide)
      · cases h

end

/-! ## The document -/

theorem isName_topLevelTags : ∀ t ∈ topLevelTags, isName t.toList = true := by decide

theorem isName_childTags {tag t : String} (h : t ∈ childTags tag) : isName t.toList = true := by
  have hfunction : ∀ t ∈ ["Argument", "Ellipsis"], isName (String.toList t) = true := by decide
  have hrecord : ∀ t ∈ ["Base"], isName (String.toList t) = true := by decide
  have henumeration : ∀ t ∈ ["EnumValue", "Unimplemented"], isName (String.toList t) = true := by decide
  unfold childTags at h
  split_ifs at h
  · exact isName_topLevelTags t h
  · exact hfunction t h
  · exact hrecord t h
  · exact henumeration t h
  · simp at h

section
variable {Node : Type} [DecidableEq Node] {tu : TranslationUnit Node}

omit [DecidableEq Node] in
/-- Filling in the indices of an element with proper names and safe texts makes it well formed. -/
theorem Element.Named.wellFormed {e : SymElement Node} (h : e.Named) (htag : isName e.tag.toList = true)
    (hsafe : ∀ a ∈ e.attrs, ∀ s ∈ a.2.filterMap Piece.str?, SafeText s) (index : Option Node → Nat)
    (fileIndex : String → Nat) : (e.fill index fileIndex).WellFormed := by
  have hattrs : (e.fill index fileIndex).attrs.map (·.1) = e.attrs.map (·.1) := by
    simp [Element.fill, Function.comp_def]
  refine ⟨htag, ⟨fun a ha => ?_, by rw [hattrs]; exact h.nodup⟩, fun a ha => ?_⟩
  · obtain ⟨b, hb, rfl⟩ := List.mem_map.mp ha
    exact h.names b hb
  · obtain ⟨b, hb, rfl⟩ := List.mem_map.mp ha
    refine safeText_value fun s hs => hsafe b hb s ?_
    rw [List.filterMap_map] at hs
    simpa only [Function.comp_def, str?_fill] using hs

/-- The attributes of an entry are written by the printing function of its node. -/
theorem safeText_nodeEntry [LegalTexts tu] {n : Node} {c : Bool} {e : SymEntry Node} (h : nodeEntry tu n c = some e)
    {el : SymElement Node} (hel : el ∈ e.elements) :
    ∀ a ∈ el.attrs, ∀ s ∈ a.2.filterMap Piece.str?, SafeText s := by
  intro a ha s hs
  have hfrag : Frag.ofAttr a ∈ fragsOf (xmlDumpTreeNode tu n c) := by
    rw [fragsOf_xmlDumpTreeNode, h, entryFrags_some]
    exact ofAttr_mem_frags hel ha
  obtain ⟨action, haction, hemit⟩ := List.mem_filterMap.mp hfrag
  have hemit : action = .emit (Frag.ofAttr a) := by
    cases action with
    | emit frag => rw [Option.some.inj hemit]
    | addNode m d => cases hemit
    | queueFile name => cases hemit
  refine (xmlDumpTreeNode_safe tu n c).safe s (List.mem_flatMap.mpr ⟨action, haction, ?_⟩)
  rw [hemit]
  exact hs

theorem wellFormed_nodeEntry [LegalTexts tu] {n : Node} {c : Bool} {e : SymEntry Node}
    (h : nodeEntry tu n c = some e) (index : Option Node → Nat) (fileIndex : String → Nat) :
    (e.fill index fileIndex).WellFormed ∧ (e.fill index fileIndex).element.tag ∈ childTags "GCC_XML" := by
  have hshape := nodeEntry_shape tu h
  have hown := safeText_nodeEntry h List.mem_cons_self
  refine ⟨⟨hshape.named.wellFormed (isName_topLevelTags _ hshape.tag) hown index fileIndex, fun child hchild => ?_⟩,
    hshape.tag⟩
  have hfill : (e.fill index fileIndex).children.getD [] =
      (e.children.getD []).map (Child.fill index fileIndex) := by
    cases hc : e.children <;> simp [Entry.fill, hc]
  rw [hfill] at hchild
  obtain ⟨source, hsource, rfl⟩ := List.mem_map.mp hchild
  obtain ⟨hnamed, htag⟩ := hshape.children source hsource
  have hsafe := safeText_nodeEntry h (List.mem_cons_of_mem _ (List.mem_map.mpr ⟨source, hsource, rfl⟩))
  exact ⟨hnamed.wellFormed (isName_childTags htag) hsafe index fileIndex, htag⟩

/-! ### Queued files -/

/-- The names of the queued files are safe. -/
def SafeFiles (s : DumpInfo Node) : Prop := ∀ f ∈ s.fileQueue, SafeText f.1

theorem SafeFiles.execAll {s : DumpInfo Node} (h : SafeFiles s) {log : List (Action Node)}
    (hlog : ∀ t ∈ log.flatMap Action.texts, SafeText t) : SafeFiles (s.execAll tu log) := by
  refine execAll_induct (fun s m c _ r _ hs => ?_) (fun s frag hs => hs) (fun s name hname hs => ?_) h
  · by_cases hi : s.index r = 0
    · rw [addNodeReal_new s r c hi]; exact hs
    · rw [addNodeReal_known s r c hi]; exact hs
  · unfold queueFile
    split
    · exact hs
    · intro f hf
      rcases List.mem_append.mp hf with hf | hf
      · exact hs f hf
      · rw [List.mem_singleton.mp hf]
        exact hlog name (List.mem_flatMap.mpr ⟨_, hname, List.mem_singleton_self name⟩)

variable {starts : List Node}

omit [DecidableEq Node] in
/-- The text before the first element holds the two versions. -/
theorem startLog_safe [legal : LegalTexts tu] : ∀ t ∈ (startLog tu starts).flatMap Action.texts, SafeText t := by
  intro t ht
  unfold startLog at ht
  rw [List.flatMap_append, List.mem_append] at ht
  rcases ht with ht | ht
  · simp [List.flatMap_map, Action.texts] at ht
  have hversion : ∀ version ∈ tu.gccxmlVersionFull, SafeText version := fun v hv => (legal.version v hv).safe
  unfold documentHead at ht
  cases hfull : tu.gccxmlVersionFull with
  | none =>
      rw [hfull] at ht
      have ht : t = tu.xmlCVersion := by simpa [Action.texts, Piece.str?] using ht
      rw [ht]
      exact legal.revision.safe
  | some version =>
      rw [hfull] at ht
      have ht : t = version ∨ t = tu.xmlCVersion := by simpa [Action.texts, Piece.str?] using ht
      rcases ht with rfl | rfl
      · exact hversion t hfull
      · exact legal.revision.safe

theorem PhasesEnd.safeFiles [LegalTexts tu] {s₁ s₂ : DumpInfo Node} (h : PhasesEnd tu starts s₁ s₂) :
    SafeFiles s₂ := by
  have hround : ∀ (s : DumpInfo Node) n rest, SafeFiles s → s.queue = n :: rest →
      SafeFiles (xmlDumpNode tu { s with queue := rest } n) := by
    intro s n rest hs _
    have hpop : SafeFiles { s with queue := rest, dumped := s.dumped ++ [(n, s.complete n)] } := hs
    exact hpop.execAll (xmlDumpTreeNode_safe tu n _).safe
  have hstart : SafeFiles (startDump tu starts) := by
    have hinit : SafeFiles ({} : DumpInfo Node) := fun f hf => by simp at hf
    exact hinit.execAll startLog_safe
  have hfirst : SafeFiles (startIncomplete tu s₁) := (xmlDump_induct hround hstart h.first).1
  exact (xmlDump_induct hround hfirst h.second).1

omit [DecidableEq Node] in
theorem fileElement_wellFormed {f : String × Nat} (h : SafeText f.1) :
    (fileElement f : Element Node Nat Nat).WellFormed := by
  have htag : isName "File".toList = true := by decide
  have hnamed : (fileElement f : Element Node Nat Nat).Named :=
    .of_sublist (List.Sublist.refl ["id", "name"]) (by decide) (by decide)
  refine ⟨htag, hnamed, fun a ha => safeText_value ?_⟩
  rcases List.mem_cons.mp ha with rfl | ha
  · simp [Piece.str?]
  · rw [List.mem_singleton.mp ha]
    simpa [Piece.str?] using h

variable (tu) in
omit [DecidableEq Node] in
theorem rootElement_wellFormed [legal : LegalTexts tu] : (rootElement tu).WellFormed := by
  have htag : isName "GCC_XML".toList = true := by decide
  have hsub : List.Sublist ((rootElement tu).attrs.map (·.1)) ["version", "cvs_revision"] := by
    unfold rootElement
    cases tu.gccxmlVersionFull with
    | none => exact .cons _ (.refl _)
    | some version => exact .refl _
  refine ⟨htag, .of_sublist hsub (by decide) (by decide), fun a ha => safeText_value ?_⟩
  rcases List.mem_append.mp ha with ha | ha
  · obtain ⟨version, hversion, rfl⟩ := List.mem_map.mp ha
    simpa [Piece.str?] using (legal.version version (Option.mem_toList.mp hversion)).safe
  · rw [List.mem_singleton.mp ha]
    simpa [Piece.str?] using legal.revision.safe

/-- **The text of a run is a well-formed document.** -/
theorem PhasesEnd.isDocument [LegalTexts tu] {s₁ s₂ : DumpInfo Node} (h : PhasesEnd tu starts s₁ s₂) :
    IsDocument Allowed "GCC_XML".toList (documentText (finishDump s₂).file) := by
  have hfile : "File" ∈ childTags "GCC_XML" := by decide
  have hentries : ∀ e ∈ nodeEntries tu s₂ ++ fileEntries s₂,
      e.WellFormed ∧ e.element.tag ∈ childTags "GCC_XML" := by
    intro e he
    rcases List.mem_append.mp he with he | he
    · obtain ⟨d, -, he⟩ := List.mem_flatMap.mp he
      obtain ⟨entry, hentry, rfl⟩ := List.mem_map.mp he
      exact wellFormed_nodeEntry (Option.mem_toList.mp hentry) _ _
    · obtain ⟨f, hf, rfl⟩ := List.mem_map.mp he
      exact ⟨⟨fileElement_wellFormed (h.safeFiles f hf), fun child hchild => by simp at hchild⟩, hfile⟩
  have hcontent : IsContent Allowed "GCC_XML".toList
      ('\n' :: (nodeEntries tu s₂ ++ fileEntries s₂).flatMap (fun e => e.frags.flatMap Frag.text) ++ []) :=
    .space (by decide) <| IsContent.flatMap
      (fun e he _ hcs => isContent_entry (hentries e he).1 (hentries e he).2 hcs) .nil
  have hroot := rootElement_wellFormed tu
  have helement : IsElement Allowed "GCC_XML".toList _ := .nested hroot.tag hroot.attrs hcontent
  have hspace : ∀ c ∈ ['\n'], isSpace c = true := List.all_eq_true.mp (by decide)
  refine ⟨['\n'], _, ['\n'], ?_, hspace, helement, hspace⟩
  have htag : (rootElement tu).tag.toList = "GCC_XML".toList := rfl
  rw [h.document_entries]
  simp [documentText, text_openFrags, htag, Frag.text, XmlGrammar.endTag, List.flatMap_assoc]

/-- **The document is well-formed XML.** When the texts of the translation unit are legal in XML, every run ends with
    a document of one root element, in which tags match and nest by the content model, no element repeats an attribute
    name, and every value is free of `<`, `"` and stray `&`. -/
theorem document_wellFormed (tu : TranslationUnit Node) (legal : LegalTexts tu) (starts : List Node) :
    ∃ s, (∀ fuel, 2 * tu.nodes.length ≤ fuel → doXmlOutput tu starts fuel = some s) ∧
      IsDocument Allowed "GCC_XML".toList (documentText s.file) := by
  obtain ⟨s₁, s₂, h, -⟩ := exists_phasesEnd tu starts
  exact ⟨finishDump s₂, fun fuel hf => (h.doXmlOutput hf).2, h.isDocument⟩

end

/-! ### A unit with texts to escape

A variadic function with a default argument and an attribute, in a file whose name has an ampersand. -/

/-- The nodes of the example, in the order of their addresses. -/
def escapedTexts : TranslationUnit (Fin 5) where
  globalNamespace := 0
  tree
    | 0 => { code := .namespaceDecl, declName := some "::" }
    | 1 => { code := .functionDecl, declName := some "operator<", declContext := some 0, treeType := some 2
             declSourceFile := "a&b.h", declOverloadedOperatorP := true
             declAttributes := [{ purpose := "gccxml", args := [some "say \"hi\""] }]
             declArguments := [{ declName := some "x", treeType := some 3, declSourceFile := "a&b.h" }] }
    | 2 => { code := .functionType, treeType := some 3, argTypesEndVoid := false
             typeArgTypes := [{ value := 3, purpose := some "1 < 2 && '\\0'" }] }
    | 3 => { code := .integerType, typeName := some 4 }
    | _ => { code := .typeDecl, declName := some "int", declSourceLine := 0, treeType := some 3 }
  identifierOpnameP name := name = "operator<"
  operatorNames := [{ opname := some "operator<", name := "<" }]
  nodes := List.finRange 5
  mem_nodes := List.mem_finRange
  address := Fin.val
  nodes_sorted := by decide
  rank
    | 4 => 1
    | _ => 0
  rank_lt := by decide

theorem escapedTexts_legal : LegalTexts escapedTexts where
  texts := by decide
  operators := by decide
  demangled s d _ h := by cases h
  codeNames := by decide
  revision := by decide
  version version h := by cases h

/-- `escapedTexts` dumped from its function. -/
theorem document_wellFormed_escapedTexts :
    LegalTexts escapedTexts ∧ ∃ s, (∀ fuel, 2 * escapedTexts.nodes.length ≤ fuel →
      doXmlOutput escapedTexts [1] fuel = some s) ∧ IsDocument Allowed "GCC_XML".toList (documentText s.file) :=
  ⟨escapedTexts_legal, document_wellFormed escapedTexts escapedTexts_legal [1]⟩

end GccXml
