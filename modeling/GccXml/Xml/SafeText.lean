import GccXml.Lib.XmlGrammar
import GccXml.Xml.Attributes

namespace GccXml

/-! # `Xml.SafeText` — every text in an attribute is escaped

The strings that come from the program are escaped on every path to an attribute value, and so are the file names that
are queued. What is written without escaping is text of `xml.c` itself and names from GCC's own tables.

`SafeText` is what an attribute value may hold: characters that XML allows, none of them a quotation mark, `<` or a
bare `&`. `xml_escape_string` turns legal text into safe text, whatever the text is, and concatenation keeps it.
`LegalTexts` collects what is assumed of the translation unit: its strings have no characters that XML forbids, which
the escaping does not remove.

`SafeBlock` says of a printing function that all it writes and queues is safe. It holds of a sequence when it holds of
the parts, so it is proved for the functions bottom up: the ones for single attributes, those for references, the
elements, and last `xml_dump_tree_node`, which every step of a run goes through. -/

open XmlGrammar

/-! ## Texts -/

/-- The characters of `s` are legal in XML. -/
def LegalText (s : String) : Prop := ∀ c ∈ s.toList, isXmlChar c = true

/-- The characters of `s` can stand for themselves in an attribute value. -/
def PlainText (s : String) : Prop := ∀ c ∈ s.toList, isPlain c = true

/-- `s` can stand in an attribute value as it is. -/
def SafeText (s : String) : Prop := AttText s.toList

instance (s : String) : Decidable (LegalText s) := decidable_of_iff (s.toList.all isXmlChar = true) List.all_eq_true
instance (s : String) : Decidable (PlainText s) := decidable_of_iff (s.toList.all isPlain = true) List.all_eq_true

theorem PlainText.safe {s : String} (h : PlainText s) : SafeText s := .of_plain h

theorem safeText_empty : SafeText "" := AttText.nil

/-- A legal character is escaped. -/
theorem attText_xmlEscapeChar {c : Char} (hc : isXmlChar c = true) : AttText (xmlEscapeChar c) := by
  have hentity : ∀ name ∈ predefinedEntities, AttText ('&' :: name ++ [';']) := fun name h => .entity h .nil
  unfold xmlEscapeChar
  split
  · exact hentity "amp".toList (by decide)
  · exact hentity "lt".toList (by decide)
  · exact hentity "gt".toList (by decide)
  · exact hentity "apos".toList (by decide)
  · exact hentity "quot".toList (by decide)
  · rename_i hamp hlt _ _ hquot
    exact .char (by simp_all [isPlain]) .nil

/-- **`xml_escape_string` makes a legal text safe.** -/
theorem safeText_xmlEscapeString {s : String} (h : LegalText s) : SafeText (xmlEscapeString s) := by
  unfold SafeText xmlEscapeString
  rw [String.toList_ofList]
  exact .flatMap fun c hc => attText_xmlEscapeChar (h c hc)

theorem isXmlChar_xmlEscapeChar {c : Char} (hc : isXmlChar c = true) : ∀ e ∈ xmlEscapeChar c, isXmlChar e = true := by
  unfold xmlEscapeChar
  split
  case h_6 => simpa using hc
  all_goals exact List.all_eq_true.mp (by decide)

/-- The escaped text is legal as well. -/
theorem legalText_xmlEscapeString {s : String} (h : LegalText s) : LegalText (xmlEscapeString s) := by
  unfold LegalText xmlEscapeString
  rw [String.toList_ofList]
  intro e he
  obtain ⟨c, hc, he⟩ := List.mem_flatMap.mp he
  exact isXmlChar_xmlEscapeChar (h c hc) e he

theorem safeText_xmlGetEncodedString {s : Option String} (h : ∀ t ∈ s, LegalText t) :
    SafeText (xmlGetEncodedString s) := by
  cases s with
  | none => exact safeText_empty
  | some t => exact safeText_xmlEscapeString (h t rfl)

/-- The part of a text before a pattern has characters of the text only. -/
theorem beforeFirst_subset (pat s : List Char) : beforeFirst pat s ⊆ s := by
  induction s with
  | nil => exact List.Subset.refl _
  | cons c cs ih =>
      unfold beforeFirst
      split
      · exact List.nil_subset _
      · exact List.cons_subset_cons c ih

/-! ## The texts of a translation unit -/

/-- The texts of one `__attribute__`. -/
def Attribute.texts (a : Attribute) : List String := a.purpose :: a.args.filterMap id

section
variable {Node : Type}

/-- The texts of a `PARM_DECL`. -/
def ParmDecl.texts (p : ParmDecl Node) : List String :=
  p.declSourceFile :: p.declName.toList ++ p.declAttributes.flatMap Attribute.texts

/-- The identifiers, file names, attribute arguments and expression texts of a node. -/
def TreeNode.texts (t : TreeNode Node) : List String :=
  t.declSourceFile :: t.declName.toList ++ t.declAssemblerName.toList ++ (t.declInitial.bind Initial.text?).toList ++
    t.typeDomainMax.toList ++ (t.declAttributes ++ t.typeAttributes).flatMap Attribute.texts ++
    t.typeValues.filterMap (·.1) ++ t.typeArgTypes.filterMap (·.purpose) ++ t.declArguments.flatMap ParmDecl.texts

/-- **The texts of the translation unit are legal in XML**: those of its nodes, those of the table of operators, and
    what the demangler makes of legal names. The names of GCC's tree codes and the two version strings, which come
    from the sources of the compiler, are plain. -/
class LegalTexts (tu : TranslationUnit Node) : Prop where
  texts : ∀ n, ∀ s ∈ (tu.tree n).texts, LegalText s
  operators : ∀ op ∈ tu.operatorNames, LegalText op.name ∧ LegalText op.assignName
  demangled : ∀ s d, LegalText s → tu.cplusDemangle s = some d → LegalText d
  codeNames : ∀ n, PlainText (tu.treeCode n).codeName
  revision : PlainText tu.xmlCVersion
  version : ∀ version ∈ tu.gccxmlVersionFull, PlainText version

/-! ## The texts that effects write -/

/-- The text of a piece that is text. -/
def Piece.str? {ι φ : Type} : Piece Node ι φ → Option String
  | .str text => some text
  | _ => none

/-- The texts that an effect writes into an attribute or queues. -/
def Action.texts : Action Node → List String
  | .emit (.attr _ value) => value.filterMap Piece.str?
  | .queueFile name => [name]
  | _ => []

/-- A printing function that writes and queues safe texts only. -/
class SafeBlock {α : Type} (p : Print Node α) : Prop where
  safe : ∀ s ∈ p.log.flatMap Action.texts, SafeText s

namespace SafeBlock

variable {α β : Type}

/-- One thing after another, with the value of the first. -/
theorem after {p : Print Node α} {f : α → Print Node β} (hp : SafeBlock p) (hf : SafeBlock (f p.value)) :
    SafeBlock (p >>= f) := by
  refine ⟨fun s hs => ?_⟩
  rw [Trace.log_bind, List.flatMap_append, List.mem_append] at hs
  exact hs.elim (hp.safe s) (hf.safe s)

/-- One thing after another, whatever the value of the first. -/
theorem seq {p : Print Node α} {f : α → Print Node β} (hp : SafeBlock p) (hf : ∀ a, SafeBlock (f a)) :
    SafeBlock (p >>= f) := hp.after (hf _)

instance bind (p : Print Node α) (f : α → Print Node β) [hp : SafeBlock p] [hf : ∀ a, SafeBlock (f a)] :
    SafeBlock (p >>= f) := hp.seq hf

instance nothing (a : α) : SafeBlock (pure a : Print Node α) := ⟨fun s hs => by simp at hs⟩

instance when (c : Prop) [Decidable c] (p : Print Node Unit) [hp : SafeBlock p] : SafeBlock (Trace.when c p) := by
  unfold Trace.when
  split
  · exact hp
  · exact nothing ()

theorem of_whenSome {o : Option α} {f : α → Print Node Unit} (h : ∀ a ∈ o, SafeBlock (f a)) :
    SafeBlock (Trace.whenSome o f) := by
  cases o with
  | none => exact nothing ()
  | some a => exact h a rfl

instance whenSome (o : Option α) (f : α → Print Node Unit) [h : ∀ a, SafeBlock (f a)] :
    SafeBlock (Trace.whenSome o f) := of_whenSome fun a _ => h a

theorem of_each {xs : List α} {f : α → Print Node Unit} (h : ∀ a ∈ xs, SafeBlock (f a)) :
    SafeBlock (Trace.each xs f) := by
  refine ⟨fun s hs => ?_⟩
  rw [Trace.log_each, List.flatMap_assoc] at hs
  obtain ⟨a, ha, hs⟩ := List.mem_flatMap.mp hs
  exact (h a ha).safe s hs

instance each (xs : List α) (f : α → Print Node Unit) [h : ∀ a, SafeBlock (f a)] : SafeBlock (Trace.each xs f) :=
  of_each fun a _ => h a

instance collect (xs : List α) (f : α → Print Node β) [h : ∀ a, SafeBlock (f a)] : SafeBlock (Trace.collect xs f) := by
  refine ⟨fun s hs => ?_⟩
  rw [Trace.log_collect, List.flatMap_assoc] at hs
  obtain ⟨a, -, hs⟩ := List.mem_flatMap.mp hs
  exact (h a).safe s hs

instance ofDiscard (p : Print Node α) [hp : SafeBlock p] : SafeBlock (discard p) :=
  ⟨fun s hs => hp.safe s (by simpa using hs)⟩

theorem of_emit {frag : SymFrag Node} (h : (Action.emit frag).texts = []) : SafeBlock (emit frag) := by
  refine ⟨fun s hs => ?_⟩
  simp [emit, h] at hs

instance startTag (indent : Nat) (tag : String) : SafeBlock (emit (.startTag indent tag : SymFrag Node)) := of_emit rfl
instance endStartTag : SafeBlock (emit (.endStartTag : SymFrag Node)) := of_emit rfl
instance emptyTag : SafeBlock (emit (.emptyTag : SymFrag Node)) := of_emit rfl
instance endTag (indent : Nat) (tag : String) : SafeBlock (emit (.endTag indent tag : SymFrag Node)) := of_emit rfl
instance blanks (count : Nat) : SafeBlock (emit (.blanks count : SymFrag Node)) := of_emit rfl

/-- An attribute is safe when its texts are. -/
theorem of_value {name : String} {value : List (SymPiece Node)} (h : ∀ s ∈ value.filterMap Piece.str?, SafeText s) :
    SafeBlock (writeAttr name value) := by
  refine ⟨fun s hs => h s ?_⟩
  simpa [writeAttr, emit, Action.texts] using hs

theorem str {name text : String} (h : SafeText text) : SafeBlock (writeAttr name [.str text] : Print Node Unit) :=
  of_value (by simpa [Piece.str?] using h)

instance num (name : String) (i : Int) : SafeBlock (writeAttr name [.num i] : Print Node Unit) :=
  of_value (by simp [Piece.str?])

instance ptr (name : String) (address : Nat) : SafeBlock (writeAttr name [.ptr address] : Print Node Unit) :=
  of_value (by simp [Piece.str?])

instance id (name : String) (i : Option Node) : SafeBlock (writeAttr name [.id i] : Print Node Unit) :=
  of_value (by simp [Piece.str?])

instance typeId (name : String) (t : Node) (i : Option Node) (q : Quals) :
    SafeBlock (writeAttr name [.typeId t i q] : Print Node Unit) :=
  of_value (by simp [Piece.str?])

end SafeBlock

/-! ## Blocks of attributes -/

/-- The texts of attributes are escaped one by one. -/
theorem safeText_attributeText {a : Attribute} (h : ∀ s ∈ a.texts, LegalText s) :
    ∀ s ∈ (attributeText a : List (SymPiece Node)).filterMap Piece.str?, SafeText s := by
  have harg : ∀ arg ∈ a.args, SafeText (xmlGetEncodedStringFromString (arg.getD "")) := by
    intro arg harg
    cases arg with
    | none => exact safeText_empty
    | some text =>
        refine safeText_xmlEscapeString (h text ?_)
        exact List.mem_cons_of_mem _ (List.mem_filterMap.mpr ⟨some text, harg, rfl⟩)
  have hliteral : ∀ c, c = "(" ∨ c = "," ∨ c = ")" → SafeText c := by
    rintro c (rfl | rfl | rfl) <;> exact PlainText.safe (by decide)
  have hpurpose : SafeText (xmlGetEncodedString (some a.purpose)) :=
    safeText_xmlEscapeString (h a.purpose List.mem_cons_self)
  intro s hs
  obtain ⟨x, hx, hs⟩ := List.mem_filterMap.mp hs
  unfold attributeText at hx
  rcases List.mem_cons.mp hx with rfl | hx
  · cases Option.some.inj hs; exact hpurpose
  cases hargs : a.args with
  | nil => simp [hargs] at hx
  | cons arg args =>
      rw [hargs] at hx harg
      simp only [List.cons_append, List.mem_cons, List.mem_append, List.mem_flatMap, List.not_mem_nil, or_false] at hx
      rcases hx with rfl | rfl | ⟨arg', harg', rfl | rfl⟩ | rfl <;> cases Option.some.inj hs
      · exact hliteral _ (Or.inl rfl)
      · exact harg arg List.mem_cons_self
      · exact hliteral _ (Or.inr (Or.inl rfl))
      · exact harg arg' (List.mem_cons_of_mem _ harg')
      · exact hliteral _ (Or.inr (Or.inr rfl))

theorem xmlPrintAttributesAttribute_safe {as bs : List Attribute} (h : ∀ s ∈ (as ++ bs).flatMap Attribute.texts, LegalText s) :
    SafeBlock (xmlPrintAttributesAttribute as bs : Print Node Unit) := by
  have hone : ∀ a ∈ as ++ bs, ∀ s ∈ (attributeText a : List (SymPiece Node)).filterMap Piece.str?, SafeText s :=
    fun a ha => safeText_attributeText fun s hs => h s (List.mem_flatMap.mpr ⟨a, ha, hs⟩)
  unfold xmlPrintAttributesAttribute
  cases has : as ++ bs with
  | nil => exact SafeBlock.nothing ()
  | cons a rest =>
      rw [has] at hone
      refine SafeBlock.of_value fun s hs => ?_
      rw [List.filterMap_append, List.mem_append] at hs
      rcases hs with hs | hs
      · exact hone a List.mem_cons_self s hs
      · obtain ⟨x, hx, hs⟩ := List.mem_filterMap.mp hs
        obtain ⟨b, hb, hx⟩ := List.mem_flatMap.mp hx
        rcases List.mem_cons.mp hx with rfl | hx
        · cases Option.some.inj hs
          exact PlainText.safe (by decide)
        · exact hone b (List.mem_cons_of_mem _ hb) s (List.mem_filterMap.mpr ⟨x, hx, hs⟩)

instance flagAttribute_safe (name : String) (flag : Bool) : SafeBlock (flagAttribute name flag : Print Node Unit) := by
  have hone : SafeBlock (writeAttr name [.str "1"] : Print Node Unit) := .str (PlainText.safe (by decide))
  exact SafeBlock.when _ _

instance constantAttribute_safe (name : String) (c : Option IntCst) :
    SafeBlock (constantAttribute name c : Print Node Unit) := by
  unfold constantAttribute
  infer_instance

/-- A file name is queued and referred to by its number. -/
theorem xmlPrintLocationAttribute_safe {file : String} (h : LegalText file) (line : Nat) :
    SafeBlock (xmlPrintLocationAttribute file line : Print Node Unit) := by
  have hqueue : SafeBlock (xmlQueueFile file : Print Node String) := by
    refine ⟨fun s hs => ?_⟩
    have hs : s = xmlEscapeString file := by
      simpa [xmlQueueFile, Action.texts, xmlGetEncodedStringFromString] using hs
    rw [hs]
    exact safeText_xmlEscapeString h
  have hattrs : ∀ f : String, SafeBlock (do
      writeAttr "location" [.file f, .str ":", .num line]
      writeAttr "file" [.file f]
      writeAttr "line" [.num line] : Print Node Unit) := by
    intro f
    have hlocation : SafeBlock (writeAttr "location" [.file f, .str ":", .num line] : Print Node Unit) := by
      refine .of_value fun s hs => ?_
      have hs : ":" = s := by simpa [Piece.str?] using hs
      rw [← hs]
      exact PlainText.safe (by decide)
    have hfile : SafeBlock (writeAttr "file" [.file f] : Print Node Unit) := .of_value (by simp [Piece.str?])
    infer_instance
  exact hqueue.after (hattrs _)

instance xmlPrintEndlineAttribute_safe (body : Body) : SafeBlock (xmlPrintEndlineAttribute body : Print Node Unit) := by
  unfold xmlPrintEndlineAttribute
  infer_instance

instance xmlPrintIdAttribute_safe (n : Node) : SafeBlock (xmlPrintIdAttribute n) := SafeBlock.id _ _

theorem xmlPrintNameAttribute_safe {n : Option String} (h : ∀ s ∈ n, LegalText s) :
    SafeBlock (xmlPrintNameAttribute n : Print Node Unit) := .str (safeText_xmlGetEncodedString h)

theorem xmlPrintDefaultArgumentAttribute_safe {t : String} (h : LegalText t) :
    SafeBlock (xmlPrintDefaultArgumentAttribute t : Print Node Unit) := .str (safeText_xmlEscapeString h)

end

/-! ## The printing functions -/

section
variable {Node : Type} (tu : TranslationUnit Node) [legal : LegalTexts tu]

/-! ### The texts of a node -/

theorem legal_declName (n : Node) : ∀ s ∈ (tu.tree n).declName, LegalText s :=
  fun s hs => legal.texts n s (by simp [TreeNode.texts, Option.mem_def.mp hs])

theorem legal_declAssemblerName (n : Node) : ∀ s ∈ (tu.tree n).declAssemblerName, LegalText s :=
  fun s hs => legal.texts n s (by simp [TreeNode.texts, Option.mem_def.mp hs])

theorem legal_attributes (n : Node) :
    ∀ s ∈ ((tu.tree n).declAttributes ++ (tu.tree n).typeAttributes).flatMap Attribute.texts, LegalText s := by
  intro s hs
  refine legal.texts n s ?_
  unfold TreeNode.texts
  simp only [List.cons_append, List.mem_cons, List.mem_append]
  tauto

instance declName_safe (n : Node) : SafeBlock (xmlPrintNameAttribute (tu.tree n).declName : Print Node Unit) :=
  xmlPrintNameAttribute_safe (legal_declName tu n)

instance declAttributes_safe (n : Node) :
    SafeBlock (xmlPrintAttributesAttribute (tu.tree n).declAttributes [] : Print Node Unit) := by
  refine xmlPrintAttributesAttribute_safe fun s hs => legal_attributes tu n s ?_
  rw [List.append_nil] at hs
  rw [List.flatMap_append]
  exact List.mem_append_left _ hs

instance typeAttributes_safe (n : Node) :
    SafeBlock (xmlPrintAttributesAttribute (tu.tree n).typeAttributes [] : Print Node Unit) := by
  refine xmlPrintAttributesAttribute_safe fun s hs => legal_attributes tu n s ?_
  rw [List.append_nil] at hs
  rw [List.flatMap_append]
  exact List.mem_append_right _ hs

instance functionAttributesAttribute_safe (n t : Node) :
    SafeBlock (xmlPrintAttributesAttribute (tu.tree n).declAttributes (tu.tree t).typeAttributes : Print Node Unit) := by
  refine xmlPrintAttributesAttribute_safe fun s hs => ?_
  rw [List.flatMap_append] at hs
  rcases List.mem_append.mp hs with hs | hs
  · refine legal_attributes tu n s ?_
    rw [List.flatMap_append]
    exact List.mem_append_left _ hs
  · refine legal_attributes tu t s ?_
    rw [List.flatMap_append]
    exact List.mem_append_right _ hs

instance xmlPrintDeclLocationAttribute_safe (d : Node) : SafeBlock (xmlPrintDeclLocationAttribute tu d) :=
  xmlPrintLocationAttribute_safe (legal.texts d _ (by simp [TreeNode.texts])) _

theorem legal_mangledName (n : Node) : ∀ s ∈ mangledName tu n, LegalText s := by
  intro s hs
  unfold mangledName at hs
  split at hs
  · exact legal_declAssemblerName tu n s hs
  · cases hs

instance xmlPrintMangledAttribute_safe (n : Node) : SafeBlock (xmlPrintMangledAttribute tu n) := by
  refine SafeBlock.of_whenSome fun name hname => SafeBlock.str ?_
  exact safeText_xmlEscapeString (legal_mangledName tu n name hname)

instance xmlPrintDemangledAttribute_safe (n : Node) : SafeBlock (xmlPrintDemangledAttribute tu n) := by
  refine SafeBlock.of_whenSome fun dename hdename => SafeBlock.str (safeText_xmlEscapeString ?_)
  obtain ⟨name, hname, hdename⟩ := Option.bind_eq_some_iff.mp hdename
  -- the name is encoded and cut before it is demangled
  refine legal.demangled _ dename (fun c hc => ?_) hdename
  rw [String.toList_ofList] at hc
  exact legalText_xmlEscapeString (legal_mangledName tu n name hname) c (beforeFirst_subset _ _ hc)

instance xmlPrintMutableAttribute_safe (n : Node) : SafeBlock (xmlPrintMutableAttribute tu n) := flagAttribute_safe _ _
instance xmlPrintExplicitAttribute_safe (d : Node) : SafeBlock (xmlPrintExplicitAttribute tu d) := flagAttribute_safe _ _
instance xmlPrintConstMethodAttribute_safe (d : Node) : SafeBlock (xmlPrintConstMethodAttribute tu d) :=
  flagAttribute_safe _ _
instance xmlPrintStaticMethodAttribute_safe (d : Node) : SafeBlock (xmlPrintStaticMethodAttribute tu d) :=
  flagAttribute_safe _ _
instance xmlPrintStaticAttribute_safe (d : Node) : SafeBlock (xmlPrintStaticAttribute tu d) := flagAttribute_safe _ _
instance xmlPrintExternAttribute_safe (d : Node) : SafeBlock (xmlPrintExternAttribute tu d) := flagAttribute_safe _ _
instance xmlPrintInlineAttribute_safe (d : Node) : SafeBlock (xmlPrintInlineAttribute tu d) := flagAttribute_safe _ _
instance xmlPrintFunctionExternAttribute_safe (d : Node) : SafeBlock (xmlPrintFunctionExternAttribute tu d) :=
  flagAttribute_safe _ _
instance xmlPrintArtificialAttribute_safe (d : Node) : SafeBlock (xmlPrintArtificialAttribute tu d) :=
  flagAttribute_safe _ _
instance xmlPrintIncompleteAttribute_safe (t : Node) : SafeBlock (xmlPrintIncompleteAttribute tu t) :=
  flagAttribute_safe _ _
instance xmlPrintAbstractAttribute_safe (t : Node) : SafeBlock (xmlPrintAbstractAttribute tu t) := flagAttribute_safe _ _
instance xmlPrintSizeAttribute_safe (t : Node) : SafeBlock (xmlPrintSizeAttribute tu t) := constantAttribute_safe _ _
instance xmlPrintAlignAttribute_safe (t : Node) : SafeBlock (xmlPrintAlignAttribute tu t) := SafeBlock.num _ _

instance xmlPrintOffsetAttribute_safe (d : Node) : SafeBlock (xmlPrintOffsetAttribute tu d) := by
  unfold xmlPrintOffsetAttribute
  infer_instance

instance xmlPrintBitsAttribute_safe (d : Node) : SafeBlock (xmlPrintBitsAttribute tu d) := by
  unfold xmlPrintBitsAttribute
  infer_instance

instance xmlPrintInitAttribute_safe (n : Node) : SafeBlock (xmlPrintInitAttribute (tu.tree n).declInitial : Print Node Unit) := by
  refine SafeBlock.of_whenSome fun text htext => SafeBlock.str (safeText_xmlEscapeString ?_)
  exact legal.texts n text (by simp [TreeNode.texts, Option.mem_def.mp htext])

instance xmlPrintArrayAttributes_safe (t : Node) : SafeBlock (xmlPrintArrayAttributes tu t) := by
  unfold xmlPrintArrayAttributes
  refine SafeBlock.after (.str (PlainText.safe (by decide))) (.str ?_)
  cases htext : (tu.tree t).typeDomainMax with
  | none => exact safeText_empty
  | some text => exact safeText_xmlEscapeString (legal.texts t text (by simp [TreeNode.texts, htext]))

/-! ### References -/

variable [DecidableEq Node]

omit legal [DecidableEq Node] in
/-- A request writes nothing. -/
theorem SafeBlock.of_request {α : Type} {p : Print Node α} (h : p.log.flatMap Action.texts = []) : SafeBlock p :=
  ⟨fun s hs => by simp [h] at hs⟩

omit legal in
instance addNode_safe (n : Node) (c : Bool) : SafeBlock (addNode tu n c) := SafeBlock.of_request rfl

omit legal in
instance xmlGetIdref_safe (t : Node) (c : Bool) : SafeBlock (xmlGetIdref tu t c) := by
  unfold xmlGetIdref
  refine SafeBlock.after inferInstance ?_
  dsimp only
  split
  · infer_instance
  · refine SafeBlock.after inferInstance ?_
    split <;> infer_instance

omit legal in
instance xmlPrintTypeIdref_safe (t : Node) (c : Bool) : SafeBlock (xmlPrintTypeIdref tu t c) := by
  unfold xmlPrintTypeIdref
  infer_instance

omit legal in
theorem str?_typeRef (t : Node) : (typeRef tu t).str? = none := rfl

omit legal in
instance xmlPrintTypeAttribute_safe (t : Node) (c : Bool) : SafeBlock (xmlPrintTypeAttribute tu t c) :=
  SafeBlock.after (xmlPrintTypeIdref_safe tu t c) (.of_value (by simp [str?_typeRef]))

omit legal in
instance xmlPrintReturnsAttribute_safe (t : Node) (c : Bool) : SafeBlock (xmlPrintReturnsAttribute tu t c) :=
  SafeBlock.after (xmlPrintTypeIdref_safe tu t c) (.of_value (by simp [str?_typeRef]))

omit legal in
instance xmlPrintBaseTypeAttribute_safe (t : Node) (c : Bool) : SafeBlock (xmlPrintBaseTypeAttribute tu t c) := by
  unfold xmlPrintBaseTypeAttribute
  infer_instance

omit legal in
instance xmlPrintContextAttribute_safe (n : Node) : SafeBlock (xmlPrintContextAttribute tu n) := by
  have haccess : SafeBlock (writeAttr "access" [.str (if (tu.tree n).treePrivate then "private"
      else if (tu.tree n).treeProtected then "protected" else "public")] : Print Node Unit) := by
    refine .str ?_
    split
    · exact PlainText.safe (by decide)
    · split <;> exact PlainText.safe (by decide)
  unfold xmlPrintContextAttribute
  infer_instance

/-- The separator is the only text of a list of references. -/
def OnlyBlanks {ι φ : Type} (value : List (Piece Node ι φ)) : Prop := ∀ x ∈ value, ∀ s ∈ x.str?, s = " "

omit legal [DecidableEq Node] in
theorem SafeBlock.of_onlyBlanks {name : String} {value : List (SymPiece Node)} (h : OnlyBlanks value) :
    SafeBlock (writeAttr name value) := by
  refine .of_value fun s hs => ?_
  obtain ⟨x, hx, hs⟩ := List.mem_filterMap.mp hs
  rw [h x hx s hs]
  exact PlainText.safe (by decide)

omit legal [DecidableEq Node] in
theorem onlyBlanks_listedId (i : Option Node) : OnlyBlanks (listedId i) := by
  intro x hx s hs
  unfold listedId at hx
  split at hx
  · simp only [List.mem_cons, List.not_mem_nil, or_false] at hx
    rcases hx with rfl | rfl
    · cases hs
    · exact (Option.some.inj hs).symm
  · simp at hx

omit legal [DecidableEq Node] in
theorem onlyBlanks_flatten {values : List (List (SymPiece Node))} (h : ∀ value ∈ values, OnlyBlanks value) :
    OnlyBlanks values.flatten := by
  intro x hx
  obtain ⟨value, hvalue, hx⟩ := List.mem_flatten.mp hx
  exact h value hvalue x hx

omit legal [DecidableEq Node] in
theorem onlyBlanks_intersperse {refs : List (SymPiece Node)} (h : ∀ x ∈ refs, x.str? = none) :
    OnlyBlanks (refs.intersperse (.str " ")) := by
  intro x hx s hs
  rcases mem_intersperse hx with rfl | hx
  · exact (Option.some.inj hs).symm
  · rw [h x hx] at hs; cases hs

omit legal in
instance listMember_safe (n : Node) : SafeBlock (listMember tu n) := by
  unfold listMember
  infer_instance

omit legal in
theorem onlyBlanks_listMember (n : Node) : OnlyBlanks (listMember tu n).value := onlyBlanks_listedId _

omit legal in
theorem xmlPrintOverridesFuel_safe (fndecl : Node) (fuel : Nat) (type : Node) :
    SafeBlock (xmlPrintOverridesFuel tu fndecl fuel type) ∧
      OnlyBlanks (xmlPrintOverridesFuel tu fndecl fuel type).value.2 := by
  induction fuel generalizing type with
  | zero => exact ⟨SafeBlock.nothing _, fun x hx => by simp [xmlPrintOverridesFuel] at hx⟩
  | succ fuel ih =>
      have hr : ∀ base, SafeBlock (xmlPrintOverridesR tu (xmlPrintOverridesFuel tu fndecl fuel) fndecl base) ∧
          OnlyBlanks (xmlPrintOverridesR tu (xmlPrintOverridesFuel tu fndecl fuel) fndecl base).value.2 := by
        intro base
        unfold xmlPrintOverridesR
        split
        · exact ⟨inferInstance, onlyBlanks_listedId _⟩
        · exact ih base
      have hsafe := fun base => (hr base).1
      refine ⟨SafeBlock.after (SafeBlock.collect _ _) (SafeBlock.nothing _), ?_⟩
      refine onlyBlanks_flatten fun value hvalue => ?_
      obtain ⟨found, hfound, rfl⟩ := List.mem_map.mp hvalue
      obtain ⟨base, -, rfl⟩ := List.mem_map.mp hfound
      exact (hr base).2

omit legal in
instance xmlPrintVirtualMethodAttributes_safe (d : Node) : SafeBlock (xmlPrintVirtualMethodAttributes tu d) := by
  have hoverrides : SafeBlock (xmlPrintOverridesMethodAttribute tu d) := by
    obtain ⟨hsafe, hblanks⟩ :=
      xmlPrintOverridesFuel_safe tu d (tu.rank (tu.cpDeclContext d) + 1) (tu.cpDeclContext d)
    have hattr : SafeBlock
        (xmlPrintOverrides tu (tu.cpDeclContext d) d >>= fun found => writeAttr "overrides" found.2) :=
      SafeBlock.after hsafe (.of_onlyBlanks hblanks)
    exact SafeBlock.when _ _
  unfold xmlPrintVirtualMethodAttributes
  infer_instance

omit legal in
instance xmlPrintThrowAttribute_safe (ft : Node) (c : Bool) : SafeBlock (xmlPrintThrowAttribute tu ft c) := by
  refine SafeBlock.of_whenSome fun raises _ => SafeBlock.after inferInstance ?_
  refine .of_onlyBlanks (onlyBlanks_intersperse fun x hx => ?_)
  obtain ⟨t, -, rfl⟩ := List.mem_map.mp hx
  rfl

omit legal in
instance xmlPrintBefriendingAttribute_safe (befriending : List Node) :
    SafeBlock (xmlPrintBefriendingAttribute tu befriending) := by
  have hattr : ∀ frnds : List Node, SafeBlock (do
      let ids ← Trace.collect frnds fun frnd => addNode tu frnd false
      writeAttr "befriending" ((ids.map Piece.id).intersperse (.str " ")) : Print Node Unit) := by
    intro frnds
    refine SafeBlock.after inferInstance (.of_onlyBlanks (onlyBlanks_intersperse fun x hx => ?_))
    obtain ⟨i, -, rfl⟩ := List.mem_map.mp hx
    rfl
  unfold xmlPrintBefriendingAttribute
  infer_instance

omit legal in
theorem onlyBlanks_listMembers (ns : List Node) : OnlyBlanks (Trace.collect ns (listMember tu)).value.flatten := by
  refine onlyBlanks_flatten fun value hvalue => ?_
  obtain ⟨n, -, rfl⟩ := List.mem_map.mp hvalue
  exact onlyBlanks_listMember tu n

omit legal in
instance xmlPrintNamespaceMembers_safe (ns : Node) : SafeBlock (xmlPrintNamespaceMembers tu ns) :=
  SafeBlock.after inferInstance (.of_onlyBlanks (onlyBlanks_listMembers tu _))

omit legal in
instance xmlPrintRecordMembers_safe (rt : Node) : SafeBlock (xmlPrintRecordMembers tu rt) := by
  refine SafeBlock.after inferInstance (SafeBlock.after inferInstance (.of_onlyBlanks fun x hx => ?_))
  rcases List.mem_append.mp hx with hx | hx
  · exact onlyBlanks_listMembers tu _ x hx
  · exact onlyBlanks_listMembers tu _ x hx

omit legal in
instance xmlPrintBasesAttribute_safe (bases : List (BaseBinfo Node)) : SafeBlock (xmlPrintBasesAttribute tu bases) := by
  refine SafeBlock.after inferInstance (.of_value fun s hs => ?_)
  obtain ⟨x, hx, hs⟩ := List.mem_filterMap.mp hs
  obtain ⟨value, hvalue, hx⟩ := List.mem_flatten.mp hx
  obtain ⟨base, -, rfl⟩ := List.mem_map.mp hvalue
  simp only [Trace.value_bind, Trace.value_pure, List.mem_append, List.mem_cons, List.not_mem_nil, or_false] at hx
  rcases hx with hx | rfl | rfl
  · unfold Access.mark at hx
    split at hx
    · simp at hx
    all_goals
      rw [List.mem_singleton.mp hx] at hs
      cases Option.some.inj hs
      exact PlainText.safe (by decide)
  · cases hs
  · cases Option.some.inj hs
    exact PlainText.safe (by decide)

/-! ### Elements -/

instance xmlOutputNamespaceDecl_safe (ns : Node) (c : Bool) : SafeBlock (xmlOutputNamespaceDecl tu ns c) := by
  unfold xmlOutputNamespaceDecl
  split
  · unfold namespaceAttributes
    repeat' first | infer_instance | refine .seq ?_ fun _ => ?_
  · unfold namespaceAliasAttributes
    repeat' first | infer_instance | refine .seq ?_ fun _ => ?_

instance xmlOutputTypedef_safe (td : Node) (c : Bool) : SafeBlock (xmlOutputTypedef tu td c) := by
  unfold xmlOutputTypedef typedefAttributes
  repeat' first | infer_instance | refine .seq ?_ fun _ => ?_

omit legal in
/-- The texts of an argument are those of its `PARM_DECL` and its default. -/
theorem xmlOutputArgument_safe {pd : Option (ParmDecl Node)} {tl : ArgType Node} (c : Bool)
    (hpd : ∀ p ∈ pd, ∀ s ∈ p.texts, LegalText s) (htl : ∀ s ∈ tl.purpose, LegalText s) :
    SafeBlock (xmlOutputArgument tu pd tl c) := by
  have hname : SafeBlock (Trace.whenSome (pd.bind (·.declName)) fun name => xmlPrintNameAttribute (some name)
      : Print Node Unit) := by
    refine .of_whenSome fun name hname => xmlPrintNameAttribute_safe fun s hs => ?_
    obtain ⟨p, hp, hname⟩ := Option.bind_eq_some_iff.mp hname
    refine hpd p hp s ?_
    rw [← Option.some.inj hs]
    simp [ParmDecl.texts, hname]
  have hlocation : SafeBlock (Trace.whenSome (pd.filter (·.treeType.isSome)) fun p =>
      xmlPrintLocationAttribute p.declSourceFile p.declSourceLine : Print Node Unit) := by
    refine .of_whenSome fun p hp => xmlPrintLocationAttribute_safe ?_ _
    exact hpd p ((Option.mem_filter_iff.mp hp).1) _ (by simp [ParmDecl.texts])
  have hdefault : SafeBlock (Trace.whenSome tl.purpose xmlPrintDefaultArgumentAttribute : Print Node Unit) :=
    .of_whenSome fun t ht => xmlPrintDefaultArgumentAttribute_safe (htl t ht)
  have hattributes : SafeBlock (Trace.whenSome pd fun p => xmlPrintAttributesAttribute p.declAttributes []
      : Print Node Unit) := by
    refine .of_whenSome fun p hp => xmlPrintAttributesAttribute_safe fun s hs => hpd p hp s ?_
    rw [List.append_nil] at hs
    exact List.mem_append_right _ hs
  unfold xmlOutputArgument argumentAttributes
  infer_instance

omit legal in
theorem xmlOutputArguments_safe {pds : List (ParmDecl Node)} {tls : List (ArgType Node)} (c : Bool)
    (hpds : ∀ p ∈ pds, ∀ s ∈ p.texts, LegalText s) (htls : ∀ tl ∈ tls, ∀ s ∈ tl.purpose, LegalText s) :
    SafeBlock (xmlOutputArguments tu pds tls c) := by
  induction tls generalizing pds with
  | nil => cases pds <;> exact SafeBlock.nothing ()
  | cons tl tls ih =>
      have htl := htls tl List.mem_cons_self
      have htls : ∀ tl ∈ tls, ∀ s ∈ tl.purpose, LegalText s := fun tl h => htls tl (List.mem_cons_of_mem _ h)
      cases pds with
      | nil => exact (xmlOutputArgument_safe tu c (fun p hp => by cases hp) htl).after (ih hpds htls)
      | cons pd pds =>
          have hpd : ∀ p ∈ some pd, ∀ s ∈ p.texts, LegalText s := by
            intro p hp
            rw [← Option.some.inj hp]
            exact hpds pd List.mem_cons_self
          exact (xmlOutputArgument_safe tu c hpd htl).after (ih (fun p h => hpds p (List.mem_cons_of_mem _ h)) htls)

omit [DecidableEq Node] in
theorem legal_typeArgTypes (t : Node) : ∀ tl ∈ (tu.tree t).typeArgTypes, ∀ s ∈ tl.purpose, LegalText s := by
  intro tl htl s hs
  refine legal.texts t s ?_
  have hmem : s ∈ (tu.tree t).typeArgTypes.filterMap (·.purpose) := List.mem_filterMap.mpr ⟨tl, htl, hs⟩
  unfold TreeNode.texts
  exact List.mem_append_left _ (List.mem_append_right _ hmem)

omit [DecidableEq Node] in
theorem legal_declArguments (fd : Node) : ∀ p ∈ (tu.tree fd).declArguments, ∀ s ∈ p.texts, LegalText s := by
  intro p hp s hs
  refine legal.texts fd s ?_
  exact List.mem_append_right _ (List.mem_flatMap.mpr ⟨p, hp, hs⟩)

/-- The arguments of a function, or of its type, after some that are skipped. -/
theorem droppedArguments_safe (fd t : Node) (k : Nat) (c : Bool) :
    SafeBlock (xmlOutputArguments tu ((tu.tree fd).declArguments.drop k) ((tu.tree t).typeArgTypes.drop k) c) :=
  xmlOutputArguments_safe tu c (fun p hp => legal_declArguments tu fd p (List.mem_of_mem_drop hp))
    fun tl htl => legal_typeArgTypes tu t tl (List.mem_of_mem_drop htl)

omit legal [DecidableEq Node] in
instance xmlOutputEllipsis_safe : SafeBlock (xmlOutputEllipsis : Print Node Unit) := by
  unfold xmlOutputEllipsis
  infer_instance

omit [DecidableEq Node] in
/-- The name of an operator is its spelling in a table, or a text of `xml.c` that stands for an unknown operator. -/
theorem legal_xmlReverseOpnameLookup (name : Option String) : LegalText (xmlReverseOpnameLookup tu name) := by
  have hunknown : LegalText "{unknown operator}" := by decide
  unfold xmlReverseOpnameLookup
  cases name with
  | none => exact hunknown
  | some name =>
      dsimp only
      split
      · exact hunknown
      · split
        · rename_i op hop
          have hop := legal.operators op (List.mem_of_find?_eq_some hop)
          split
          · exact hop.1
          · exact hop.2
        · exact hunknown

instance shapeName_safe (fd : Node) : SafeBlock (xmlPrintNameAttribute (functionShape tu fd).name : Print Node Unit) := by
  refine xmlPrintNameAttribute_safe ?_
  have hname := legal_declName tu fd
  have hopname : ∀ s ∈ some (xmlReverseOpnameLookup tu (tu.tree fd).declName), LegalText s := by
    intro s hs
    rw [← Option.some.inj hs]
    exact legal_xmlReverseOpnameLookup tu _
  unfold functionShape
  dsimp only
  split_ifs <;> assumption

instance functionAttributes_safe (fd : Node) (c : Bool) : SafeBlock (functionAttributes tu fd c) := by
  unfold functionAttributes
  repeat' first | infer_instance | refine .seq ?_ fun _ => ?_

instance xmlOutputFunctionDecl_safe (fd : Node) (c : Bool) : SafeBlock (xmlOutputFunctionDecl tu fd c) := by
  have harguments := droppedArguments_safe tu fd (tu.treeType fd) (skippedArguments tu fd) c
  unfold xmlOutputFunctionDecl
  refine SafeBlock.after inferInstance (SafeBlock.after inferInstance ?_)
  dsimp only
  split <;> infer_instance

instance xmlOutputVarDecl_safe (vd : Node) (c : Bool) : SafeBlock (xmlOutputVarDecl tu vd c) := by
  unfold xmlOutputVarDecl varDeclAttributes
  repeat' first | infer_instance | refine .seq ?_ fun _ => ?_

instance xmlOutputFieldDecl_safe (fd : Node) (c : Bool) : SafeBlock (xmlOutputFieldDecl tu fd c) := by
  unfold xmlOutputFieldDecl fieldDeclAttributes
  repeat' first | infer_instance | refine .seq ?_ fun _ => ?_

omit legal in
instance xmlOutputBase_safe (base : BaseBinfo Node) : SafeBlock (xmlOutputBase tu base) := by
  have haccess : SafeBlock (writeAttr "access" [.str base.access.text] : Print Node Unit) := by
    refine .str ?_
    cases base.access <;> exact PlainText.safe (by decide)
  unfold xmlOutputBase baseAttributes
  infer_instance

instance recordAttributes_safe (rt : Node) (c : Bool) : SafeBlock (recordAttributes tu rt c) := by
  unfold recordAttributes
  repeat' first | infer_instance | refine .seq ?_ fun _ => ?_

instance xmlOutputRecordType_safe (rt : Node) (c : Bool) : SafeBlock (xmlOutputRecordType tu rt c) := by
  unfold xmlOutputRecordType
  refine SafeBlock.after inferInstance (SafeBlock.after inferInstance ?_)
  split <;> infer_instance

omit [DecidableEq Node] in
instance xmlOutputFundamentalType_safe (t : Node) : SafeBlock (xmlOutputFundamentalType tu t) := by
  unfold xmlOutputFundamentalType fundamentalTypeAttributes
  infer_instance

instance xmlOutputFunctionType_safe (t : Node) (c : Bool) : SafeBlock (xmlOutputFunctionType tu t c) := by
  have harguments : SafeBlock (xmlOutputArguments tu [] (tu.tree t).typeArgTypes c) :=
    xmlOutputArguments_safe tu c (fun p hp => by simp at hp) (legal_typeArgTypes tu t)
  unfold xmlOutputFunctionType functionTypeAttributes
  repeat' first | infer_instance | refine .seq ?_ fun _ => ?_

instance xmlOutputMethodType_safe (t : Node) (c : Bool) : SafeBlock (xmlOutputMethodType tu t c) := by
  have harguments : SafeBlock (xmlOutputArguments tu [] ((tu.tree t).typeArgTypes.drop 1) c) :=
    xmlOutputArguments_safe tu c (fun p hp => by simp at hp)
      fun tl htl => legal_typeArgTypes tu t tl (List.mem_of_mem_drop htl)
  unfold xmlOutputMethodType methodTypeAttributes
  repeat' first | infer_instance | refine .seq ?_ fun _ => ?_

instance xmlOutputIndirectType_safe (tag : String) (t : Node) : SafeBlock (xmlOutputIndirectType tu tag t) := by
  unfold xmlOutputIndirectType indirectTypeAttributes
  infer_instance

instance xmlOutputOffsetType_safe (t : Node) (c : Bool) : SafeBlock (xmlOutputOffsetType tu t c) := by
  unfold xmlOutputOffsetType offsetTypeAttributes
  repeat' first | infer_instance | refine .seq ?_ fun _ => ?_

instance xmlOutputArrayType_safe (t : Node) (c : Bool) : SafeBlock (xmlOutputArrayType tu t c) := by
  unfold xmlOutputArrayType arrayTypeAttributes
  repeat' first | infer_instance | refine .seq ?_ fun _ => ?_

omit [DecidableEq Node] in
/-- The code of a node that is not implemented is plain, and so is the name of the function that found it. -/
theorem xmlOutputUnimplemented_safe (t : Node) (dn : Option Node) {function : Option String}
    (h : ∀ s ∈ function, PlainText s) : SafeBlock (xmlOutputUnimplemented tu t dn function) := by
  have hcode : SafeBlock (writeAttr "tree_code_name" [.str (tu.treeCode t).codeName] : Print Node Unit) :=
    .str (legal.codeNames t).safe
  have hfunction : SafeBlock (Trace.whenSome function fun name => writeAttr "function" [.str name]
      : Print Node Unit) := .of_whenSome fun name hname => .str (h name hname).safe
  unfold xmlOutputUnimplemented unimplementedAttributes
  infer_instance

omit [DecidableEq Node] in
theorem xmlOutputEnumValue_safe {purpose : Option String} (value : Node) (h : ∀ s ∈ purpose, LegalText s) :
    SafeBlock (xmlOutputEnumValue tu purpose value) := by
  unfold xmlOutputEnumValue
  split
  · have hname : SafeBlock (writeAttr "name" [.str (xmlGetEncodedString purpose)] : Print Node Unit) :=
      .str (safeText_xmlGetEncodedString h)
    unfold enumValueAttributes
    infer_instance
  · refine SafeBlock.after inferInstance (xmlOutputUnimplemented_safe tu value none fun s hs => ?_)
    rw [← Option.some.inj hs]
    decide

instance xmlOutputEnumeralType_safe (t : Node) : SafeBlock (xmlOutputEnumeralType tu t) := by
  have hvalue : ∀ tv ∈ (tu.tree t).typeValues, SafeBlock (xmlOutputEnumValue tu tv.1 tv.2) := by
    intro tv htv
    refine xmlOutputEnumValue_safe tu tv.2 fun s hs => legal.texts t s ?_
    have hmem : s ∈ (tu.tree t).typeValues.filterMap (·.1) := List.mem_filterMap.mpr ⟨tv, htv, hs⟩
    unfold TreeNode.texts
    exact List.mem_append_left _ (List.mem_append_left _ (List.mem_append_right _ hmem))
  have hvalues := SafeBlock.of_each hvalue
  unfold xmlOutputEnumeralType enumeralTypeAttributes
  repeat' first | infer_instance | refine .seq ?_ fun _ => ?_

instance xmlOutputVariant_safe (t : Node) (c : Bool) : SafeBlock (xmlOutputVariant tu t c) := by
  unfold xmlOutputVariant cvQualifiedTypeAttributes
  infer_instance

/-- **Every text that printing a node writes or queues is safe.** -/
theorem xmlDumpTreeNode_safe (n : Node) (c : Bool) : SafeBlock (xmlDumpTreeNode tu n c) := by
  have hmain : SafeBlock (xmlOutputMainVariant tu n c) := by
    unfold xmlOutputMainVariant xmlOutputPointerType xmlOutputReferenceType
    split <;> infer_instance
  have hcv : SafeBlock (xmlOutputCvQualifiedType tu n c) := by
    unfold xmlOutputCvQualifiedType
    split <;> infer_instance
  have hunimplemented : SafeBlock (xmlOutputUnimplemented tu n (some n) none) :=
    xmlOutputUnimplemented_safe tu n (some n) fun s hs => by cases hs
  unfold xmlDumpTreeNode
  split <;> infer_instance

end

end GccXml
