import GccXml.Xml.ReadBack

namespace GccXml

/-! # `Xml.Following` — following references in the document that is read

An attribute that refers to nodes is a list of ids between spaces. A reader splits it into words and looks each word up
among the ids of the elements. The lists come from `xml.c`, one printing function at a time; that the words lead to the
right elements then follows for the whole document.

The argument has three parts, one for each section:

* `ReferenceList` describes the value of an attribute before the indices are known: ids with suffixes, each followed or
  preceded by a space. The words of its text are the ids themselves, since no id contains white space.

* Every printing function writes such lists in the attributes that refer to nodes. This is the only part that goes
  through the functions of `xml.c`, and it goes through them once, in the order of `Xml.Print` and `Xml.Output`.

* Looking a word up gives the elements of the node with its index. Distinct nodes have distinct indices and an element
  has the index of its node, so the elements found are those of the node that was meant, and if no node is printed
  twice there is one of them. -/

open DumpInfo
open XmlGrammar (isSpace isPlain attValue attValues readAttValue ReadElement readDocument withId)

/-! ## Lists of references -/

section
variable {Node : Type}

/-- The node and the qualifiers that a piece refers to. -/
def Piece.target? : SymPiece Node → Option (Option Node × Quals)
  | .id r => some (r, Quals.none)
  | .typeId _ r q => some (r, q)
  | _ => none

/-- References between spaces. -/
inductive ReferenceList : List (SymPiece Node) → Prop
  | nil : ReferenceList []
  | blank {value : List (SymPiece Node)} : ReferenceList value → ReferenceList (.str " " :: value)
  | last {x : SymPiece Node} : x.isRef = true → ReferenceList [x]
  | ref {x : SymPiece Node} {value : List (SymPiece Node)} : x.isRef = true → ReferenceList value →
      ReferenceList (x :: .str " " :: value)

/-- References with spaces between them. -/
theorem referenceList_intersperse {refs : List (SymPiece Node)} (h : ∀ x ∈ refs, x.isRef = true) :
    ReferenceList (refs.intersperse (.str " ")) := by
  induction refs with
  | nil => exact .nil
  | cons x refs ih =>
      have hx := h x List.mem_cons_self
      have ih := ih fun y hy => h y (List.mem_cons_of_mem _ hy)
      cases refs with
      | nil => exact .last hx
      | cons y refs =>
          rw [List.intersperse_cons_cons]
          exact .ref hx ih

/-- References with a space behind each. -/
theorem referenceList_listedIds [DecidableEq Node] (tu : TranslationUnit Node) (ns : List Node) :
    ReferenceList (listedIds tu ns) := by
  induction ns with
  | nil => exact .nil
  | cons n ns ih =>
      show ReferenceList (listedId (answer tu n) ++ listedIds tu ns)
      unfold listedId
      split
      · exact .ref rfl ih
      · exact ih

/-! ### Their text -/

theorem isIdentifierChar_refText (i : Nat) (q : Quals) : ∀ c ∈ (refText i q).toList, isIdentifierChar c = true := by
  have hdigit : ∀ c : Char, c.isDigit = true → isIdentifierChar c = true := by
    intro c hc
    rw [Char.isDigit, Bool.and_eq_true, decide_eq_true_eq, decide_eq_true_eq] at hc
    have hrange : ('0' ≤ c && c ≤ '9') = true := by
      rw [Bool.and_eq_true, decide_eq_true_eq, decide_eq_true_eq]
      exact ⟨hc.1, hc.2⟩
    simp only [isIdentifierChar, hrange, Bool.true_or]
  have hsuffix : ∀ c ∈ q.suffix, isIdentifierChar c = true := by
    have hall : q.suffix.all isIdentifierChar = true := by
      obtain ⟨c, v, r⟩ := q
      cases c <;> cases v <;> cases r <;> decide
    exact List.all_eq_true.mp hall
  intro c hc
  rw [refText, String.toList_ofList] at hc
  rcases List.mem_append.mp hc with hc | hc
  · rcases List.mem_cons.mp hc with rfl | hc
    · decide
    · exact hdigit c (Nat.isDigit_of_mem_toDigits (by decide) (by decide) hc)
  · exact hsuffix c hc

theorem isWord_refText (i : Nat) (q : Quals) : IsWord (refText i q).toList where
  ne_nil := by
    rw [refText, String.toList_ofList]
    exact List.cons_ne_nil _ _
  noBreak c hc := by
    have hkept := kept_of_isIdentifierChar (isIdentifierChar_refText i q c hc)
    rw [isBreak, Bool.or_eq_false_iff]
    constructor
    · refine decide_eq_false ?_
      rintro rfl
      cases hkept.2
    · exact decide_eq_false hkept.1.notNewline

variable (index : Option Node → Nat) (fileIndex : String → Nat)

/-- The text of a reference is that of its target. -/
theorem text_of_isRef {x : SymPiece Node} (h : x.isRef = true) :
    ∃ target, x.target? = some target ∧ (x.fill index fileIndex).text = refText (index target.1) target.2 := by
  cases x with
  | id r => exact ⟨(r, Quals.none), rfl, rfl⟩
  | typeId t r q => exact ⟨(r, q), rfl, rfl⟩
  | _ => cases h

theorem pieceText_blank (value : List (SymPiece Node)) :
    pieceText index fileIndex (.str " " :: value) = ' ' :: pieceText index fileIndex value :=
  pieceText_str index fileIndex " " value

/-- **The words of a list of references** are the ids that it refers to. -/
theorem splitWords_referenceList {value : List (SymPiece Node)} (h : ReferenceList value) :
    splitWords (pieceText index fileIndex value) =
      (value.filterMap Piece.target?).map fun target => (refText (index target.1) target.2).toList := by
  have htext : ∀ (x : SymPiece Node) (v : List (SymPiece Node)), pieceText index fileIndex (x :: v) =
      (x.fill index fileIndex).text.toList ++ pieceText index fileIndex v := fun x v => List.flatMap_cons
  induction h with
  | nil => rfl
  | @blank value _ ih =>
      rw [pieceText_blank, splitWords_cons_break (show isBreak ' ' = true by decide), ih]
      rfl
  | @last x hx =>
      obtain ⟨target, htarget, hfill⟩ := text_of_isRef index fileIndex hx
      rw [htext, hfill, pieceText_nil, List.append_nil, splitWords_word (isWord_refText _ _), List.filterMap_cons, htarget]
      rfl
  | @ref x value hx _ ih =>
      obtain ⟨target, htarget, hfill⟩ := text_of_isRef index fileIndex hx
      rw [htext, hfill, pieceText_blank, splitWords_word_append (isWord_refText _ _) (by decide), ih, List.filterMap_cons, htarget]
      rfl

/-- A text that stands for itself, and whose only white space are blanks, is passed on as it is. -/
theorem attValue_plain {text : List Char} (hplain : ∀ c ∈ text, isPlain c = true) (hkept : ∀ c ∈ text, Kept c) :
    attValue text = text := by
  have hchars : ∀ s ⊆ text, XmlGrammar.attChars none s = some s := by
    intro s hs
    induction s with
    | nil => rfl
    | cons c s ih =>
        have hc := hs List.mem_cons_self
        rw [XmlGrammar.attChars_plain (hplain c hc), ih (List.subset_of_cons_subset hs), Option.map_some, (hkept c hc).spaced]
  have hreturn : '\r' ∉ text := fun hmem => (hkept _ hmem).notReturn rfl
  have hline : XmlGrammar.endOfLine text = text := by simpa [XmlGrammar.endOfLine] using XmlGrammar.endOfLine_append hreturn []
  rw [attValue, readAttValue, hline, hchars text (List.Subset.refl _), Option.getD_some]

/-- The characters of an id are passed on. -/
theorem attValue_refText (i : Nat) (q : Quals) : attValue (refText i q).toList = (refText i q).toList :=
  attValue_plain (refText_plain i q) fun c hc => (kept_of_isIdentifierChar (isIdentifierChar_refText i q c hc)).1

theorem attValue_fileText (i : Nat) : attValue (fileText i).toList = (fileText i).toList := by
  refine attValue_plain (fileText_plain i) fun c hc => ?_
  rw [fileText, String.toList_ofList] at hc
  rcases List.mem_cons.mp hc with rfl | hc
  · exact (kept_of_isIdentifierChar (by decide)).1
  · have hdigits := isIdentifierChar_refText i Quals.none c (by
      rw [refText, String.toList_ofList]
      exact List.mem_append_left _ (List.mem_cons_of_mem _ hc))
    exact (kept_of_isIdentifierChar hdigits).1

/-- A list of references is passed on as it is. -/
theorem attValue_referenceList {value : List (SymPiece Node)} (h : ReferenceList value) :
    attValue (pieceText index fileIndex value) = pieceText index fileIndex value := by
  have hblank : isPlain ' ' = true ∧ Kept ' ' := ⟨by decide, by decide, by decide, by decide, by decide⟩
  have hid : ∀ (i : Nat) (q : Quals), ∀ c ∈ (refText i q).toList, isPlain c = true ∧ Kept c := fun i q c hc =>
    ⟨refText_plain i q c hc, (kept_of_isIdentifierChar (isIdentifierChar_refText i q c hc)).1⟩
  have hcons : ∀ text : List Char, (∀ c ∈ text, isPlain c = true ∧ Kept c) →
      ∀ c ∈ ' ' :: text, isPlain c = true ∧ Kept c := by
    intro text htext c hc
    rcases List.mem_cons.mp hc with rfl | hc
    · exact hblank
    · exact htext c hc
  have hall : ∀ c ∈ pieceText index fileIndex value, isPlain c = true ∧ Kept c := by
    induction h with
    | nil => exact fun c hc => by cases hc
    | blank _ ih =>
        rw [pieceText_blank]
        exact hcons _ ih
    | last hx =>
        obtain ⟨target, -, hfill⟩ := text_of_isRef index fileIndex hx
        intro c hc
        rw [pieceText, List.flatMap_singleton, hfill] at hc
        exact hid _ _ c hc
    | @ref x value hx _ ih =>
        obtain ⟨target, -, hfill⟩ := text_of_isRef index fileIndex hx
        intro c hc
        rw [pieceText, List.flatMap_cons, hfill] at hc
        rcases List.mem_append.mp hc with hc | hc
        · exact hid _ _ c hc
        · rw [← pieceText, pieceText_blank] at hc
          exact hcons _ ih c hc
  exact attValue_plain (fun c hc => (hall c hc).1) fun c hc => (hall c hc).2

end

/-! ## What the printing functions write -/

section
variable {Node : Type}

/-- Attributes with references in them are lists of references, but for `bases`, where a word may name an access. -/
class ListsReferences (p : Print Node Unit) : Prop where
  lists : ∀ name value, .attr name value ∈ fragsOf p → name ≠ "bases" → value.any Piece.isRef = true →
    ReferenceList value

namespace ListsReferences

instance plain (p : Print Node Unit) [h : PlainBlock p] : ListsReferences p := by
  refine ⟨fun name value hmem _ href => ?_⟩
  have hattr : (name, value) ∈ attrsOf p := List.mem_filterMap.mpr ⟨_, hmem, rfl⟩
  obtain ⟨x, hx, hxref⟩ := List.any_eq_true.mp href
  rw [Piece.isRef_of_isText (h.text _ hattr x hx)] at hxref
  cases hxref

instance when (c : Prop) [Decidable c] (p : Print Node Unit) [h : ListsReferences p] :
    ListsReferences (Trace.when c p) := by
  unfold Trace.when
  split
  · exact h
  · exact plain _

instance whenSome {α : Type} (o : Option α) (f : α → Print Node Unit) [h : ∀ a, ListsReferences (f a)] :
    ListsReferences (Trace.whenSome o f) := by
  cases o with
  | none => exact plain (pure ())
  | some a => exact h a

theorem seq {p : Print Node Unit} {f : Unit → Print Node Unit} (hp : ListsReferences p)
    (hf : ∀ u, ListsReferences (f u)) : ListsReferences (p >>= f) := by
  refine ⟨fun name value hmem => ?_⟩
  rw [fragsOf_bind, List.mem_append] at hmem
  exact hmem.elim (hp.lists name value) ((hf ()).lists name value)

/-- A computation that writes nothing goes before. -/
theorem after {α : Type} {p : Print Node α} {f : α → Print Node Unit} (hp : fragsOf p = [])
    (hf : ListsReferences (f p.value)) : ListsReferences (p >>= f) := by
  refine ⟨fun name value hmem => ?_⟩
  rw [fragsOf_bind, hp, List.nil_append] at hmem
  exact hf.lists name value hmem

instance each {α : Type} (xs : List α) (f : α → Print Node Unit) [h : ∀ a, ListsReferences (f a)] :
    ListsReferences (Trace.each xs f) := by
  refine ⟨fun name value hmem => ?_⟩
  rw [fragsOf_each] at hmem
  obtain ⟨a, -, hmem⟩ := List.mem_flatMap.mp hmem
  exact (h a).lists name value hmem

/-- A fragment that is no attribute. -/
theorem of_frag {frag : SymFrag Node} (h : frag.attr? = none) : ListsReferences (emit frag) := by
  refine ⟨fun name value hmem => ?_⟩
  rw [fragsOf_emit, List.mem_singleton] at hmem
  subst hmem
  cases h

instance startTag (indent : Nat) (tag : String) : ListsReferences (emit (.startTag indent tag) : Print Node Unit) :=
  of_frag rfl
instance endStartTag : ListsReferences (emit .endStartTag : Print Node Unit) := of_frag rfl
instance emptyTag : ListsReferences (emit .emptyTag : Print Node Unit) := of_frag rfl
instance endTag (indent : Nat) (tag : String) : ListsReferences (emit (.endTag indent tag) : Print Node Unit) :=
  of_frag rfl
instance blanks (count : Nat) : ListsReferences (emit (.blanks count) : Print Node Unit) := of_frag rfl

theorem attr {name : String} {value : List (SymPiece Node)} (h : ReferenceList value) :
    ListsReferences (writeAttr name value) := by
  refine ⟨fun name' value' hmem _ _ => ?_⟩
  rw [fragsOf_writeAttr, List.mem_singleton] at hmem
  cases hmem
  exact h

/-- An attribute without references. -/
theorem attr_text {name : String} {value : List (SymPiece Node)} (h : value.any Piece.isRef = false) :
    ListsReferences (writeAttr name value) := by
  refine ⟨fun name' value' hmem _ href => ?_⟩
  rw [fragsOf_writeAttr, List.mem_singleton] at hmem
  cases hmem
  rw [h] at href
  cases href

end ListsReferences

instance xmlPrintIdAttribute_listsReferences (n : Node) : ListsReferences (xmlPrintIdAttribute n) := .attr (.last rfl)

instance xmlPrintLocationAttribute_listsReferences (file : String) (line : Nat) :
    ListsReferences (xmlPrintLocationAttribute file line : Print Node Unit) :=
  .after rfl (.seq (.attr_text rfl) fun _ => .seq (.attr_text rfl) fun _ => .attr_text rfl)

variable [DecidableEq Node] (tu : TranslationUnit Node)

instance xmlPrintDeclLocationAttribute_listsReferences (d : Node) :
    ListsReferences (xmlPrintDeclLocationAttribute tu d) := xmlPrintLocationAttribute_listsReferences _ _

theorem writeAttr_typeIdref (name : String) (t : Node) (c : Bool) :
    ListsReferences (xmlPrintTypeIdref tu t c >>= fun ref => writeAttr name [ref]) := by
  refine .after (fragsOf_xmlPrintTypeIdref tu t c) (.attr (.last ?_))
  rw [value_xmlPrintTypeIdref]
  rfl

instance xmlPrintTypeAttribute_listsReferences (t : Node) (c : Bool) :
    ListsReferences (xmlPrintTypeAttribute tu t c) := writeAttr_typeIdref tu "type" t c

instance xmlPrintReturnsAttribute_listsReferences (t : Node) (c : Bool) :
    ListsReferences (xmlPrintReturnsAttribute tu t c) := writeAttr_typeIdref tu "returns" t c

instance xmlPrintBaseTypeAttribute_listsReferences (t : Node) (c : Bool) :
    ListsReferences (xmlPrintBaseTypeAttribute tu t c) := .after (fragsOf_addNode tu t c) (.attr (.last rfl))

instance xmlPrintContextAttribute_listsReferences (n : Node) : ListsReferences (xmlPrintContextAttribute tu n) := by
  have hcontext : ListsReferences (addNode tu (tu.cpDeclContext n) false >>= fun id => do
      writeAttr "context" [.id id]
      Trace.when (tu.typeP (tu.cpDeclContext n)) <|
        writeAttr "access" [.str (if (tu.tree n).treePrivate then "private"
          else if (tu.tree n).treeProtected then "protected" else "public")]) :=
    .after (fragsOf_addNode tu _ false) (.seq (.attr (.last rfl)) fun _ => inferInstance)
  exact @ListsReferences.when _ _ _ _ hcontext

instance xmlPrintOverridesMethodAttribute_listsReferences (d : Node) :
    ListsReferences (xmlPrintOverridesMethodAttribute tu d) := by
  obtain ⟨hvalue, -, hfrags⟩ :=
    xmlPrintOverridesFuel_spec tu d (tu.rank (tu.cpDeclContext d) + 1) (tu.cpDeclContext d)
  have hattr : ListsReferences
      (xmlPrintOverrides tu (tu.cpDeclContext d) d >>= fun found => writeAttr "overrides" found.2) := by
    refine .after hfrags (.attr ?_)
    rw [xmlPrintOverrides, hvalue]
    exact referenceList_listedIds tu _
  exact @ListsReferences.when _ _ _ _ hattr

instance xmlPrintVirtualMethodAttributes_listsReferences (d : Node) :
    ListsReferences (xmlPrintVirtualMethodAttributes tu d) := by
  unfold xmlPrintVirtualMethodAttributes
  repeat' refine .seq ?_ fun _ => ?_
  all_goals infer_instance

instance xmlPrintThrowAttribute_listsReferences (ft : Node) (c : Bool) :
    ListsReferences (xmlPrintThrowAttribute tu ft c) := by
  refine @ListsReferences.whenSome _ _ _ _ fun raises => .after (by simp) (.attr (referenceList_intersperse ?_))
  intro x hx
  simp only [Trace.value_collect, value_xmlPrintTypeIdref, List.mem_map] at hx
  obtain ⟨t, -, rfl⟩ := hx
  rfl

instance xmlPrintBefriendingAttribute_listsReferences (befriending : List Node) :
    ListsReferences (xmlPrintBefriendingAttribute tu befriending) := by
  have hattr : ListsReferences (Trace.collect (listedFriends tu befriending) (addNode tu · false) >>= fun ids =>
      writeAttr "befriending" ((ids.map Piece.id).intersperse (.str " "))) := by
    refine .after (by simp) (.attr (referenceList_intersperse ?_))
    intro x hx
    obtain ⟨r, -, rfl⟩ := List.mem_map.mp hx
    rfl
  exact @ListsReferences.when _ _ _ _ hattr

/-- The members `ns`, each listed by itself. -/
theorem flatten_listMember (ns : List Node) :
    (Trace.collect ns (listMember tu)).value.flatten = listedIds tu ns := by
  simp [listedIds, List.flatMap_def]

instance xmlPrintNamespaceMembers_listsReferences (ns : Node) : ListsReferences (xmlPrintNamespaceMembers tu ns) := by
  refine .after (by simp) (.attr ?_)
  rw [flatten_listMember]
  exact referenceList_listedIds tu _

instance xmlPrintRecordMembers_listsReferences (rt : Node) : ListsReferences (xmlPrintRecordMembers tu rt) := by
  refine .after (by simp) (.after (by simp) (.attr ?_))
  rw [flatten_listMember, flatten_listMember, listedIds, listedIds, ← List.flatMap_append]
  exact referenceList_listedIds tu _

instance xmlPrintBasesAttribute_listsReferences (bases : List (BaseBinfo Node)) :
    ListsReferences (xmlPrintBasesAttribute tu bases) := by
  refine .after (by simp) ⟨fun name value hmem hname => ?_⟩
  rw [fragsOf_writeAttr, List.mem_singleton] at hmem
  cases hmem
  exact absurd rfl hname

instance xmlOutputNamespaceDecl_listsReferences (n : Node) (c : Bool) :
    ListsReferences (xmlOutputNamespaceDecl tu n c) := by
  have hnamespace : ListsReferences (addNode tu (realNamespace tu n) false >>= fun id => do
      writeAttr "namespace" [.id id]
      xmlPrintMangledAttribute tu n
      xmlPrintDemangledAttribute tu n) :=
    .after (fragsOf_addNode tu _ false) (.seq (.attr (.last rfl)) fun _ => .seq inferInstance fun _ => inferInstance)
  have halias : ListsReferences (namespaceAliasAttributes tu n) := by
    unfold namespaceAliasAttributes
    exact .seq inferInstance fun _ => .seq inferInstance fun _ => .seq inferInstance fun _ => hnamespace
  have hreal : ListsReferences (namespaceAttributes tu n c) := by
    unfold namespaceAttributes
    repeat' refine .seq ?_ fun _ => ?_
    all_goals infer_instance
  unfold xmlOutputNamespaceDecl
  split
  · exact .seq inferInstance fun _ => .seq hreal fun _ => inferInstance
  · exact .seq inferInstance fun _ => .seq halias fun _ => inferInstance

instance xmlOutputTypedef_listsReferences (n : Node) (c : Bool) : ListsReferences (xmlOutputTypedef tu n c) := by
  unfold xmlOutputTypedef typedefAttributes
  repeat' refine .seq ?_ fun _ => ?_
  all_goals infer_instance

instance xmlOutputArgument_listsReferences (pd : Option (ParmDecl Node)) (tl : ArgType Node) (c : Bool) :
    ListsReferences (xmlOutputArgument tu pd tl c) := by
  unfold xmlOutputArgument argumentAttributes
  refine @ListsReferences.when _ _ _ _ ?_
  repeat' refine .seq ?_ fun _ => ?_
  all_goals infer_instance

instance xmlOutputArguments_listsReferences (pds : List (ParmDecl Node)) (tls : List (ArgType Node)) (c : Bool) :
    ListsReferences (xmlOutputArguments tu pds tls c) := by
  induction tls generalizing pds with
  | nil => cases pds <;> exact .plain (pure ())
  | cons tl tls ih =>
      cases pds with
      | nil => exact .seq (xmlOutputArgument_listsReferences tu none tl c) fun _ => ih []
      | cons pd pds => exact .seq (xmlOutputArgument_listsReferences tu (some pd) tl c) fun _ => ih pds

instance xmlOutputEllipsis_listsReferences : ListsReferences (xmlOutputEllipsis : Print Node Unit) := by
  unfold xmlOutputEllipsis
  exact .seq inferInstance fun _ => inferInstance

instance xmlOutputFunctionDecl_listsReferences (n : Node) (c : Bool) :
    ListsReferences (xmlOutputFunctionDecl tu n c) := by
  have hattrs : ListsReferences (functionAttributes tu n c) := by
    unfold functionAttributes
    repeat' refine .seq ?_ fun _ => ?_
    all_goals infer_instance
  unfold xmlOutputFunctionDecl
  refine .seq inferInstance fun _ => .seq hattrs fun _ => ?_
  dsimp only
  split
  · infer_instance
  · repeat' refine .seq ?_ fun _ => ?_
    all_goals infer_instance

instance xmlOutputVarDecl_listsReferences (n : Node) (c : Bool) : ListsReferences (xmlOutputVarDecl tu n c) := by
  unfold xmlOutputVarDecl varDeclAttributes
  repeat' refine .seq ?_ fun _ => ?_
  all_goals infer_instance

instance xmlOutputFieldDecl_listsReferences (n : Node) (c : Bool) : ListsReferences (xmlOutputFieldDecl tu n c) := by
  unfold xmlOutputFieldDecl fieldDeclAttributes
  repeat' refine .seq ?_ fun _ => ?_
  all_goals infer_instance

instance xmlOutputBase_listsReferences (base : BaseBinfo Node) : ListsReferences (xmlOutputBase tu base) := by
  refine .after (fragsOf_addNode tu base.type true) (.seq inferInstance fun _ => .seq ?_ fun _ => inferInstance)
  unfold baseAttributes
  exact .seq (.attr (.last rfl)) fun _ => .seq inferInstance fun _ => .seq inferInstance fun _ => inferInstance

instance xmlOutputRecordType_listsReferences (n : Node) (c : Bool) : ListsReferences (xmlOutputRecordType tu n c) := by
  have hattrs : ListsReferences (recordAttributes tu n c) := by
    unfold recordAttributes
    repeat' refine .seq ?_ fun _ => ?_
    all_goals infer_instance
  unfold xmlOutputRecordType
  refine .seq inferInstance fun _ => .seq hattrs fun _ => ?_
  split
  · infer_instance
  · repeat' refine .seq ?_ fun _ => ?_
    all_goals infer_instance

omit [DecidableEq Node] in
theorem xmlOutputUnimplemented_listsReferences (t : Node) (dn : Option Node) (function : Option String) :
    ListsReferences (xmlOutputUnimplemented tu t dn function) := by
  unfold xmlOutputUnimplemented unimplementedAttributes
  repeat' refine .seq ?_ fun _ => ?_
  all_goals infer_instance

omit [DecidableEq Node] in
theorem xmlOutputEnumValue_listsReferences (tv : Option String × Node) :
    ListsReferences (xmlOutputEnumValue tu tv.1 tv.2) := by
  unfold xmlOutputEnumValue enumValueAttributes
  split
  · repeat' refine .seq ?_ fun _ => ?_
    all_goals infer_instance
  · exact .seq inferInstance fun _ => xmlOutputUnimplemented_listsReferences tu _ none _

theorem xmlOutputMainVariant_listsReferences (n : Node) (c : Bool) :
    ListsReferences (xmlOutputMainVariant tu n c) := by
  unfold xmlOutputMainVariant
  split
  case h_1 | h_2 | h_3 | h_17 => infer_instance
  case h_4 =>
    unfold xmlOutputArrayType arrayTypeAttributes
    repeat' refine .seq ?_ fun _ => ?_
    all_goals infer_instance
  case h_5 | h_6 =>
    show ListsReferences (xmlOutputIndirectType tu _ n)
    unfold xmlOutputIndirectType indirectTypeAttributes
    repeat' refine .seq ?_ fun _ => ?_
    all_goals infer_instance
  case h_7 =>
    unfold xmlOutputFunctionType functionTypeAttributes
    repeat' refine .seq ?_ fun _ => ?_
    all_goals infer_instance
  case h_8 =>
    unfold xmlOutputMethodType methodTypeAttributes
    repeat' refine .seq ?_ fun _ => ?_
    all_goals infer_instance
  case h_9 =>
    unfold xmlOutputOffsetType offsetTypeAttributes
    repeat' refine .seq ?_ fun _ => ?_
    all_goals infer_instance
  case h_10 =>
    have hvalue := xmlOutputEnumValue_listsReferences tu
    unfold xmlOutputEnumeralType enumeralTypeAttributes
    repeat' refine .seq ?_ fun _ => ?_
    all_goals infer_instance
  -- the fundamental types
  all_goals
    unfold xmlOutputFundamentalType fundamentalTypeAttributes
    repeat' refine .seq ?_ fun _ => ?_
    all_goals infer_instance

theorem xmlOutputVariant_listsReferences (n : Node) (c : Bool) : ListsReferences (xmlOutputVariant tu n c) := by
  have hattrs : ∀ id q, ListsReferences (cvQualifiedTypeAttributes n id q) := fun id q =>
    .seq (.attr (.last rfl)) fun _ => .seq (.attr (.last rfl)) fun _ =>
      .seq inferInstance fun _ => .seq inferInstance fun _ => inferInstance
  refine .after (fragsOf_xmlGetIdref tu n c) (@ListsReferences.when _ _ _ _ ?_)
  exact .seq inferInstance fun _ => .seq (hattrs _ _) fun _ => inferInstance

/-- **What is printed for a node lists its references.** -/
theorem xmlDumpTreeNode_listsReferences (n : Node) (c : Bool) : ListsReferences (xmlDumpTreeNode tu n c) := by
  have hcv : ListsReferences (xmlOutputCvQualifiedType tu n c) := by
    unfold xmlOutputCvQualifiedType
    split
    · exact xmlOutputMainVariant_listsReferences tu n c
    · exact xmlOutputVariant_listsReferences tu n c
  unfold xmlDumpTreeNode
  split
  case h_22 => exact xmlOutputUnimplemented_listsReferences tu n (some n) none
  all_goals infer_instance

end

/-! ## Looking up an id -/

section
variable {Node : Type}

/-- The value of an attribute as it is read. -/
theorem value_read (e : Element Node Nat Nat) (content : XmlGrammar.Forest) (name : String) :
    (e.read content).value name.toList = (e.attr? name).map fun value => attValue (valueText value).toList := by
  obtain ⟨tag, attrs⟩ := e
  show (attValues (attrs.map fun a => (a.1.toList, (valueText a.2).toList))).lookup name.toList =
    ((attrs.find? fun a => a.1 = name).map (·.2)).map fun value => attValue (valueText value).toList
  induction attrs with
  | nil => rfl
  | cons a attrs ih =>
      rw [List.map_cons, attValues, List.map_cons, List.lookup_cons, List.find?_cons]
      by_cases hname : a.1 = name
      · subst hname
        simp
      · have htext : (name.toList == a.1.toList) = false := by
          rw [beq_eq_false_iff_ne]
          exact fun heq => hname (String.toList_inj.mp heq).symm
        rw [htext, decide_eq_false hname]
        exact ih

/-- The id as it is read. -/
theorem value_id_read (e : Element Node Nat Nat) (content : XmlGrammar.Forest) :
    (e.read content).value "id".toList = e.idText.map fun text => attValue text.toList := by
  rw [value_read, Element.idText, Option.map_map]
  rfl

theorem attr?_of_mem {ι φ : Type} {e : Element Node ι φ} (hnodup : (e.attrs.map (·.1)).Nodup)
    {a : String × List (Piece Node ι φ)} (ha : a ∈ e.attrs) : e.attr? a.1 = some a.2 := by
  obtain ⟨tag, attrs⟩ := e
  unfold Element.attr?
  dsimp only at hnodup ha ⊢
  induction attrs with
  | nil => cases ha
  | cons b attrs ih =>
      rw [List.map_cons, List.nodup_cons] at hnodup
      rcases List.mem_cons.mp ha with rfl | ha
      · simp
      · have hne : b.1 ≠ a.1 := fun heq => hnodup.1 (heq ▸ List.mem_map_of_mem ha)
        rw [List.find?_cons_of_neg (by simpa using hne)]
        exact ih hnodup.2 ha

theorem filter_flatMap_eq {α β : Type} {l : List α} {f : α → List β} {p : β → Bool} {q : α → Bool}
    (h : ∀ a ∈ l, (f a).filter p = if q a then f a else []) : (l.flatMap f).filter p = (l.filter q).flatMap f := by
  induction l with
  | nil => rfl
  | cons a l ih =>
      rw [List.flatMap_cons, List.filter_append, h a List.mem_cons_self, ih fun b hb => h b (List.mem_cons_of_mem _ hb)]
      cases hq : q a
      · rw [List.filter_cons_of_neg (by simp [hq])]
        rfl
      · rw [List.filter_cons_of_pos hq, List.flatMap_cons]
        rfl

variable [DecidableEq Node] {tu : TranslationUnit Node} {starts : List Node}

variable (tu) in
/-- What is read of the node of `d`. -/
def readNode (s : DumpInfo Node) (d : Node × Bool) : List ReadElement :=
  (nodeEntry tu d.1 d.2).toList.map fun e => (e.fill s.indexOf s.fileIndexOf).read

variable (tu) in
/-- The elements of the nodes that are printed with the id of `target`. -/
def elementsFor (s : DumpInfo Node) (target : Option Node × Quals) : List ReadElement :=
  (s.dumped.filter fun d => elementId tu d.1 = some target).flatMap (readNode tu s)

/-- The id of an entry. -/
theorem idText_nodeEntry (s : DumpInfo Node) {d : Node × Bool} {e : SymEntry Node}
    (he : nodeEntry tu d.1 d.2 = some e) : (s.fillElement e.element).idText = s.idTextOf tu d.1 := by
  have helements : nodeElements tu d = e.element :: (e.children.getD []).map Child.element := by
    rw [nodeElements, he]
    exact List.append_nil _
  rw [idText_fillElement]
  by_cases hown : PrintsOwnId tu d.1
  · obtain ⟨e', rest, hels, hid, -⟩ := nodeElements_own d.2 hown
    rw [helements] at hels
    obtain ⟨rfl, -⟩ := List.cons.inj hels
    rw [hid, idTextOf, elementId, if_pos hown]
    simp [valueText, Piece.fill, Piece.text, indexOf]
  · have hels := nodeElements_variant d.2 hown
    rw [helements] at hels
    by_cases hsuffix : idrefSuffix tu d.1 = Quals.none
    · rw [if_neg (not_not.mpr hsuffix)] at hels
      cases hels
    · rw [if_pos hsuffix] at hels
      have hid : (cvElement tu d.1).attr? "id" = some [.typeId d.1 (idrefBase tu d.1) (idrefSuffix tu d.1)] :=
        Element.attr?_of_head rfl
      rw [(List.cons.inj hels).1, hid, idTextOf, elementId, if_neg hown, if_pos hsuffix]
      simp [valueText, Piece.fill, Piece.text]

omit [DecidableEq Node] in
/-- What has a known index is told apart by it. -/
theorem indexOf_inj {s : DumpInfo Node} (hc : s.Coherent) {a b : Option Node} (ha : ∀ r, a = some r → s.index r ≠ 0)
    (hb : ∀ r, b = some r → s.index r ≠ 0) (h : s.indexOf a = s.indexOf b) : a = b := by
  cases a with
  | none =>
      cases b with
      | none => rfl
      | some m => exact absurd h.symm (hb m rfl)
  | some n =>
      cases b with
      | none => exact absurd h (ha n rfl)
      | some m => rw [hc.index_inj n m (ha n rfl) h]

/-- The id of a node that was printed is known. -/
theorem PhasesEnd.known_elementId {s₁ s₂ : DumpInfo Node} (h : PhasesEnd tu starts s₁ s₂) {d : Node × Bool}
    (hd : d ∈ s₂.dumped) {target : Option Node × Quals} (hid : elementId tu d.1 = some target) :
    ∀ r, target.1 = some r → s₂.index r ≠ 0 := by
  intro r hr
  unfold elementId at hid
  by_cases hown : PrintsOwnId tu d.1
  · rw [if_pos hown] at hid
    cases hid
    cases hr
    exact h.running.1.coherent.dumped d hd
  · rw [if_neg hown] at hid
    by_cases hsuffix : idrefSuffix tu d.1 = Quals.none
    · rw [if_neg (not_not.mpr hsuffix)] at hid
      cases hid
    · rw [if_pos hsuffix] at hid
      cases hid
      have hels := nodeElements_variant d.2 hown
      rw [if_pos hsuffix] at hels
      have hmem : cvElement tu d.1 ∈ nodeElements tu d := by
        show cvElement tu d.1 ∈ nodeElements tu (d.1, d.2)
        rw [hels]
        exact List.mem_singleton_self _
      have hattr : ("type", [.id (idrefBase tu d.1)]) ∈ (cvElement tu d.1).attrs :=
        List.mem_cons_of_mem _ List.mem_cons_self
      exact (h.known hd hmem hattr (List.mem_singleton_self _)).1 r hr

/-- **Looking up an id** gives the elements of the nodes that are printed with it. -/
theorem PhasesEnd.withId_target {s₁ s₂ : DumpInfo Node} (h : PhasesEnd tu starts s₁ s₂)
    {target : Option Node × Quals} (hknown : ∀ r, target.1 = some r → s₂.index r ≠ 0) :
    withId (readElements tu s₂) (refText (s₂.indexOf target.1) target.2).toList = elementsFor tu s₂ target := by
  have hnodes : (nodeEntries tu s₂).map Entry.read = s₂.dumped.flatMap (readNode tu s₂) := by
    rw [nodeEntries, List.map_flatMap]
    refine congrArg List.flatten (List.map_congr_left fun d _ => ?_)
    exact List.map_map
  have hfiles : ((fileEntries s₂).map Entry.read).filter (fun e => e.value "id".toList =
      some (refText (s₂.indexOf target.1) target.2).toList) = [] := by
    refine List.filter_eq_nil_iff.mpr fun e he => ?_
    obtain ⟨entry, hentry, rfl⟩ := List.mem_map.mp he
    obtain ⟨f, -, rfl⟩ := List.mem_map.mp hentry
    have hid : (fileElement f : Element Node Nat Nat).attr? "id" = some [.file f.2] := Element.attr?_of_head rfl
    have htext : valueText [(.file f.2 : OutPiece Node)] = fileText f.2 := by simp [valueText, Piece.text]
    rw [Entry.read, value_read, hid, Option.map_some, htext, attValue_fileText, decide_eq_true_eq, Option.some.injEq,
      String.toList_inj]
    exact fun heq => refText_ne_fileText _ _ _ heq.symm
  rw [withId, readElements, List.map_append, List.filter_append, hfiles, List.append_nil, hnodes, elementsFor]
  refine filter_flatMap_eq fun d hd => ?_
  unfold readNode
  cases hentry : nodeEntry tu d.1 d.2 with
  | none => simp
  | some e =>
      have hvalue : (e.fill s₂.indexOf s₂.fileIndexOf).read.value "id".toList =
          (elementId tu d.1).map fun x => (refText (s₂.indexOf x.1) x.2).toList := by
        have hid : (e.fill s₂.indexOf s₂.fileIndexOf).element.idText = s₂.idTextOf tu d.1 := idText_nodeEntry s₂ hentry
        rw [Entry.read, value_id_read, hid, idTextOf, Option.map_map]
        refine congrArg (Option.map · _) (funext fun x => ?_)
        exact attValue_refText _ _
      have hiff : (elementId tu d.1).map (fun x => (refText (s₂.indexOf x.1) x.2).toList) =
          some (refText (s₂.indexOf target.1) target.2).toList ↔ elementId tu d.1 = some target := by
        rw [Option.map_eq_some_iff]
        constructor
        · rintro ⟨x, hx, htext⟩
          obtain ⟨hindex, hquals⟩ := refText_inj.mp (String.toList_inj.mp htext)
          have hbase := indexOf_inj h.running.1.coherent (h.known_elementId hd hx) hknown hindex
          exact hx.trans (congrArg some (Prod.ext hbase hquals))
        · exact fun heq => ⟨target, heq, rfl⟩
      rw [Option.toList_some, List.map_singleton, List.filter_singleton, hvalue, decide_eq_decide.mpr hiff]
      cases decide (elementId tu d.1 = some target) <;> rfl

/-! ## Reading and following -/

omit [DecidableEq Node] in
/-- What a run wrote of an element. -/
theorem attr?_fillElement (s : DumpInfo Node) (el : SymElement Node) (name : String) :
    (s.fillElement el).attr? name = (el.attr? name).map fun value => value.map (Piece.fill s.indexOf s.fileIndexOf) := by
  simp [Element.attr?, fillElement, Element.fill, List.find?_map, Function.comp_def]

/-- The elements of a node give no attribute twice. -/
theorem nodup_nodeElements {d : Node × Bool} {el : SymElement Node} (hel : el ∈ nodeElements tu d) :
    (el.attrs.map (·.1)).Nodup := by
  obtain ⟨e, he, hel⟩ := List.mem_flatMap.mp hel
  have hshape := nodeEntry_shape tu (Option.mem_toList.mp he)
  rcases List.mem_cons.mp hel with rfl | hel
  · exact hshape.named.nodup
  · obtain ⟨child, hchild, rfl⟩ := List.mem_map.mp hel
    exact (hshape.children child hchild).1.nodup

/-- The attribute `a` of an element as it is read. -/
theorem value_fillElement (s : DumpInfo Node) {d : Node × Bool} {el : SymElement Node} (hel : el ∈ nodeElements tu d)
    {a : String × List (SymPiece Node)} (ha : a ∈ el.attrs) (content : XmlGrammar.Forest) :
    ((s.fillElement el).read content).value a.1.toList = some (attValue (pieceText s.indexOf s.fileIndexOf a.2)) := by
  rw [value_read, attr?_fillElement, attr?_of_mem (nodup_nodeElements hel) ha, Option.map_some, Option.map_some, valueText,
    String.toList_ofList, List.flatMap_map]
  rfl

theorem referenceList_nodeElements {d : Node × Bool} {el : SymElement Node} (hel : el ∈ nodeElements tu d)
    {a : String × List (SymPiece Node)} (ha : a ∈ el.attrs) (hname : a.1 ≠ "bases")
    (href : a.2.any Piece.isRef = true) : ReferenceList a.2 := by
  obtain ⟨e, he, hel⟩ := List.mem_flatMap.mp hel
  refine (xmlDumpTreeNode_listsReferences tu d.1 d.2).lists a.1 a.2 ?_ hname href
  rw [fragsOf_xmlDumpTreeNode, Option.mem_toList.mp he, entryFrags_some]
  exact ofAttr_mem_frags hel ha

/-- **Following the references of an attribute** leads to the elements of the nodes that were meant. -/
theorem PhasesEnd.follow {s₁ s₂ : DumpInfo Node} (h : PhasesEnd tu starts s₁ s₂) {d : Node × Bool} (hd : d ∈ s₂.dumped)
    {el : SymElement Node} (hel : el ∈ nodeElements tu d) {a : String × List (SymPiece Node)} (ha : a ∈ el.attrs)
    (hname : a.1 ≠ "bases") (href : a.2.any Piece.isRef = true) (content : XmlGrammar.Forest) :
    ∃ text, ((s₂.fillElement el).read content).value a.1.toList = some text ∧
      (splitWords text).map (withId (readElements tu s₂)) = (a.2.filterMap Piece.target?).map (elementsFor tu s₂) := by
  have hlist := referenceList_nodeElements hel ha hname href
  refine ⟨_, value_fillElement s₂ hel ha content, ?_⟩
  rw [attValue_referenceList _ _ hlist, splitWords_referenceList _ _ hlist, List.map_map]
  refine List.map_congr_left fun target htarget => h.withId_target fun r hr => ?_
  obtain ⟨x, hx, htarget⟩ := List.mem_filterMap.mp htarget
  refine (h.known hd hel ha hx).1 r ?_
  cases x <;> cases htarget <;> exact hr

/-- A node that is printed once under its own id is the only one with it. -/
theorem PhasesEnd.elementsFor_own {s₁ s₂ : DumpInfo Node} (h : PhasesEnd tu starts s₁ s₂)
    (hlate : NoLateRequest tu starts) {d : Node × Bool} (hd : d ∈ s₂.dumped) (hown : PrintsOwnId tu d.1) :
    elementsFor tu s₂ (some d.1, Quals.none) = readNode tu s₂ d := by
  have honce := exactlyOnce_of_noLateRequest h hlate
  have hnodup : (s₂.dumped.map (·.1)).Nodup := by
    rw [List.nodup_iff_count_eq_one]
    exact fun n hn => honce.printed n ((h.index_iff n).mpr (h.mem_dumped_iff.mp hn))
  have hfilter : s₂.dumped.filter (fun d' => elementId tu d'.1 = some (some d.1, Quals.none)) = [d] := by
    have hsame : ∀ d' ∈ s₂.dumped, (elementId tu d'.1 = some (some d.1, Quals.none)) ↔ d' = d := by
      intro d' hd'
      rw [elementId_none_iff]
      constructor
      · rintro ⟨-, heq⟩
        exact List.inj_on_of_nodup_map hnodup hd' hd (Option.some.inj heq).symm
      · rintro rfl
        exact ⟨hown, rfl⟩
    have hcongr : s₂.dumped.filter (fun d' => elementId tu d'.1 = some (some d.1, Quals.none)) =
        s₂.dumped.filter (· == d) := by
      refine List.filter_congr fun d' hd' => ?_
      rw [decide_eq_decide.mpr (hsame d' hd'), beq_eq_decide]
    rw [hcongr, List.filter_beq, List.count_eq_one_of_mem (List.Nodup.of_map _ hnodup) hd, List.replicate_one]
  rw [elementsFor, hfilter, List.flatMap_singleton]

/-- An attribute whose text is an escaped one is read as this text, but for its white space. -/
theorem value_escaped [LegalTexts tu] (s : DumpInfo Node) {d : Node × Bool} {el : SymElement Node}
    (hel : el ∈ nodeElements tu d) {name text : String} (ha : (name, [.str (xmlEscapeString text)]) ∈ el.attrs)
    (content : XmlGrammar.Forest) :
    ((s.fillElement el).read content).value name.toList =
      some ((XmlGrammar.endOfLine text.toList).map XmlGrammar.spaced) := by
  have hpiece : pieceText s.indexOf s.fileIndexOf [.str (xmlEscapeString text)] = text.toList.flatMap xmlEscapeChar := by
    rw [pieceText_str, pieceText_nil, List.append_nil, xmlEscapeString, String.toList_ofList]
  have hsafe : XmlGrammar.AttText (text.toList.flatMap xmlEscapeChar) := by
    obtain ⟨e, he, hmem⟩ := List.mem_flatMap.mp hel
    have hsafe := safeText_nodeEntry (Option.mem_toList.mp he) hmem _ ha (xmlEscapeString text) (by simp [Piece.str?])
    rwa [SafeText, xmlEscapeString, String.toList_ofList] at hsafe
  have hread := hsafe.readAttValue
  rw [value_fillElement s hel ha content, hpiece, ← hread]
  rw [readAttValue, endOfLine_escape, attChars_escape] at hread ⊢
  split at hread
  · next hlegal => rw [if_pos hlegal]
  · cases hread

/-- **The document is read back.** A processor reads the text of every run as one root element, in it the elements of the
    nodes in the order in which they were printed and those of the files, nested and with the attributes as they were
    written; and where an attribute is an escaped text, it passes on this text, with its white space normalised. -/
theorem document_reads_back (tu : TranslationUnit Node) (legal : LegalTexts tu) (starts : List Node) :
    ∃ s, (∀ fuel, 2 * tu.nodes.length ≤ fuel → doXmlOutput tu starts fuel = some s) ∧
      readDocument (documentText s.file) = some (readForest tu s) ∧
      ∀ d ∈ s.dumped, ∀ el ∈ nodeElements tu d, ∀ name text, (name, [.str (xmlEscapeString text)]) ∈ el.attrs →
        ∀ content, ((s.fillElement el).read content).value name.toList =
          some ((XmlGrammar.endOfLine text.toList).map XmlGrammar.spaced) := by
  obtain ⟨s₁, s₂, h, -⟩ := exists_phasesEnd tu starts
  refine ⟨finishDump s₂, fun fuel hf => (h.doXmlOutput hf).2, h.readDocument, ?_⟩
  intro d _ el hel name text ha content
  exact value_escaped _ hel ha content

/-- **References are read back.** In the document that a processor reads, the words of every attribute with references,
    looked up among the ids, lead to the elements of the nodes that `xml.c` referred to; and when no node is printed twice, an
    id without qualifiers leads to the element of its node and to no other. -/
theorem references_read_back (tu : TranslationUnit Node) (legal : LegalTexts tu) (starts : List Node) :
    ∃ s attrs elements, (∀ fuel, 2 * tu.nodes.length ≤ fuel → doXmlOutput tu starts fuel = some s) ∧
      readDocument (documentText s.file) = some (.cons "GCC_XML".toList attrs (.ofElements elements) .nil) ∧
      (∀ d ∈ s.dumped, ∀ el ∈ nodeElements tu d, ∀ a ∈ el.attrs, a.1 ≠ "bases" → a.2.any Piece.isRef = true →
        ∀ content, ∃ text, ((s.fillElement el).read content).value a.1.toList = some text ∧
          (splitWords text).map (withId elements) = (a.2.filterMap Piece.target?).map (elementsFor tu s)) ∧
      (NoLateRequest tu starts → ∀ d ∈ s.dumped, PrintsOwnId tu d.1 →
        elementsFor tu s (some d.1, Quals.none) = readNode tu s d) := by
  obtain ⟨s₁, s₂, h, -⟩ := exists_phasesEnd tu starts
  refine ⟨finishDump s₂, _, _, fun fuel hf => (h.doXmlOutput hf).2, h.readDocument, ?_, ?_⟩
  · intro d hd el hel a ha hname href content
    exact h.follow hd hel ha hname href content
  · intro hlate d hd hown
    exact h.elementsFor_own hlate hd hown

/-! ### A unit with texts to escape -/

theorem document_reads_back_escapedTexts : LegalTexts escapedTexts ∧
    ∃ s, (∀ fuel, 2 * escapedTexts.nodes.length ≤ fuel → doXmlOutput escapedTexts [1] fuel = some s) ∧
      readDocument (documentText s.file) = some (readForest escapedTexts s) ∧
      ∀ d ∈ s.dumped, ∀ el ∈ nodeElements escapedTexts d, ∀ name text, (name, [.str (xmlEscapeString text)]) ∈ el.attrs →
        ∀ content, ((s.fillElement el).read content).value name.toList =
          some ((XmlGrammar.endOfLine text.toList).map XmlGrammar.spaced) :=
  ⟨escapedTexts_legal, document_reads_back escapedTexts escapedTexts_legal [1]⟩

/-- The function of the unit has a return type, a parameter and a context, and no node of it makes a late request. -/
theorem references_read_back_escapedTexts : LegalTexts escapedTexts ∧ NoLateRequest escapedTexts [1] ∧
    ∃ s attrs elements, (∀ fuel, 2 * escapedTexts.nodes.length ≤ fuel → doXmlOutput escapedTexts [1] fuel = some s) ∧
      readDocument (documentText s.file) = some (.cons "GCC_XML".toList attrs (.ofElements elements) .nil) ∧
      (∀ d ∈ s.dumped, ∀ el ∈ nodeElements escapedTexts d, ∀ a ∈ el.attrs, a.1 ≠ "bases" →
        a.2.any Piece.isRef = true → ∀ content, ∃ text, ((s.fillElement el).read content).value a.1.toList = some text ∧
          (splitWords text).map (withId elements) = (a.2.filterMap Piece.target?).map (elementsFor escapedTexts s)) ∧
      ∀ d ∈ s.dumped, PrintsOwnId escapedTexts d.1 → elementsFor escapedTexts s (some d.1, Quals.none) =
        readNode escapedTexts s d := by
  have hlate : NoLateRequest escapedTexts [1] := by
    have hnone : ∀ n, printedOverrides escapedTexts n = [] := by decide
    rintro n - - ⟨-, fn, hfn, -⟩
    rw [hnone] at hfn
    cases hfn
  obtain ⟨s, attrs, elements, hrun, hread, hfollow, hown⟩ := references_read_back escapedTexts escapedTexts_legal [1]
  exact ⟨escapedTexts_legal, hlate, s, attrs, elements, hrun, hread, hfollow, hown hlate⟩

end

end GccXml
