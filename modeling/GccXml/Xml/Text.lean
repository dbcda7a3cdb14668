import GccXml.Xml.Document

namespace GccXml

/-! # `Xml.Text` — the elements of the document and their ids

The text of an attribute value, the elements of the whole document, and which element has which id. An id is `_` and a
number, with the letters of its qualifiers at the end, so two ids with the same text have the same number and the same
letters.

An attribute value is a list of pieces: strings, ids, references, numbers. The text of a piece that refers to a node
depends on the index of the node only, and its digits can be read back (`refText_inj`); a file id begins with `f` and
no other id does. This makes ids comparable as texts, which is how a reader of the document compares them.

The elements of the document are those of its entries, and the entries are known from `Document`: one for each printed
node with the indices of the end of the run. So every element comes from a printed node, a variant of one, or a file,
and the same goes for ids (`idText_cases`). The questions of the later modules, whether a reference is the id of an
element and of how many, become questions about which nodes are printed. -/

open DumpInfo

/-! ## Text -/

/-- The letters `c`, `v` and `r` of a reference. -/
def Quals.suffix (q : Quals) : List Char :=
  (if q.isConst then ['c'] else []) ++ (if q.isVolatile then ['v'] else []) ++ if q.isRestrict then ['r'] else []

/-- `"_%d%s%s%s"`: the text of a reference. -/
def refText (index : Nat) (suffix : Quals) : String := String.ofList ('_' :: Nat.toDigits 10 index ++ suffix.suffix)

/-- `"f%d"`: the text of a reference to a file. -/
def fileText (index : Nat) : String := String.ofList ('f' :: Nat.toDigits 10 index)

/-- `"%p"`. -/
def ptrText (address : Nat) : String :=
  if address = 0 then "(nil)" else String.ofList ('0' :: 'x' :: Nat.toDigits 16 address)

/-- `"%d"`, for an `unsigned` or a signed value. -/
def numText (value : Int) : String :=
  match value with
  | .ofNat n => String.ofList (Nat.toDigits 10 n)
  | .negSucc n => String.ofList ('-' :: Nat.toDigits 10 (n + 1))

/-- The text of a piece in the document. -/
def Piece.text {Node : Type} : OutPiece Node → String
  | .str text => text
  | .num value => numText value
  | .ptr address => ptrText address
  | .file index => fileText index
  | .id index => refText index Quals.none
  | .typeId _ index suffix => refText index suffix

/-- The text of an attribute value. -/
def valueText {Node : Type} (value : List (OutPiece Node)) : String :=
  String.ofList (value.flatMap fun x => x.text.toList)

theorem toDigits_injective {i j : Nat} (h : Nat.toDigits 10 i = Nat.toDigits 10 j) : i = j := by
  have hi : Nat.ofDigitChars 10 (Nat.toDigits 10 i) 0 = i := by simp
  rw [h] at hi
  simpa using hi.symm

theorem Quals.suffix_not_digit (q : Quals) : ∀ c ∈ q.suffix, c.isDigit = false := by
  have hall : q.suffix.all (fun c => !c.isDigit) = true := by
    obtain ⟨c, v, r⟩ := q
    cases c <;> cases v <;> cases r <;> decide
  intro c hc
  simpa using List.all_eq_true.mp hall c hc

theorem Quals.suffix_injective {q p : Quals} (h : q.suffix = p.suffix) : q = p := by
  obtain ⟨c, v, r⟩ := q
  obtain ⟨c', v', r'⟩ := p
  revert h
  cases c <;> cases v <;> cases r <;> cases c' <;> cases v' <;> cases r' <;> decide

/-- The digits at the front of a reference are those of its index. -/
theorem takeWhile_digits (i : Nat) (q : Quals) :
    (Nat.toDigits 10 i ++ q.suffix).takeWhile Char.isDigit = Nat.toDigits 10 i := by
  have hdigits : ∀ c ∈ Nat.toDigits 10 i, c.isDigit = true := fun c hc =>
    Nat.isDigit_of_mem_toDigits (by decide) (by decide) hc
  rw [List.takeWhile_append_of_pos hdigits]
  have hnil : q.suffix.takeWhile Char.isDigit = [] := by
    cases hs : q.suffix with
    | nil => rfl
    | cons c cs =>
        have hc := q.suffix_not_digit c (by rw [hs]; exact List.mem_cons_self)
        simp [hc]
  rw [hnil, List.append_nil]

/-- **The text of a reference determines it.** -/
theorem refText_inj {i j : Nat} {q p : Quals} : refText i q = refText j p ↔ i = j ∧ q = p := by
  refine ⟨fun h => ?_, fun ⟨hi, hq⟩ => by rw [hi, hq]⟩
  have hlist : Nat.toDigits 10 i ++ q.suffix = Nat.toDigits 10 j ++ p.suffix := by
    have h := String.ofList_injective h
    exact (List.cons.inj h).2
  have hdigits := congrArg (List.takeWhile Char.isDigit) hlist
  rw [takeWhile_digits, takeWhile_digits] at hdigits
  rw [hdigits] at hlist
  exact ⟨toDigits_injective hdigits, Quals.suffix_injective (List.append_cancel_left hlist)⟩

/-- A reference to a node is no reference to a file. -/
theorem refText_ne_fileText (i j : Nat) (q : Quals) : refText i q ≠ fileText j := by
  intro h
  have h := (List.cons.inj (String.ofList_injective h)).1
  exact absurd h (by decide)

/-! ## The elements of the document -/

section
variable {Node ι φ : Type}

/-- Fill in the indices of an element. -/
def Element.fill (index : ι → Nat) (fileIndex : φ → Nat) (e : Element Node ι φ) : Element Node Nat Nat :=
  ⟨e.tag, e.attrs.map fun a => (a.1, a.2.map (Piece.fill index fileIndex))⟩

def Child.fill (index : ι → Nat) (fileIndex : φ → Nat) (c : Child Node ι φ) : Child Node Nat Nat :=
  ⟨c.blanks, c.indent, c.element.fill index fileIndex⟩

def Entry.fill (index : ι → Nat) (fileIndex : φ → Nat) (e : Entry Node ι φ) : Entry Node Nat Nat :=
  ⟨e.element.fill index fileIndex, e.children.map (·.map (Child.fill index fileIndex))⟩

variable (index : ι → Nat) (fileIndex : φ → Nat)

theorem openFrags_fill (e : Element Node ι φ) (indent : Nat) :
    (e.fill index fileIndex).openFrags indent = (e.openFrags indent).map (Frag.fill index fileIndex) := by
  simp [Element.openFrags, Element.fill, Frag.fill, Frag.ofAttr, Function.comp_def]

theorem childFrags_fill (c : Child Node ι φ) :
    (c.fill index fileIndex).frags = c.frags.map (Frag.fill index fileIndex) := by
  cases hb : c.blanks <;> simp [Child.frags, Child.fill, openFrags_fill, Frag.fill, hb]

/-- Filling in the indices before or after writing the fragments is the same. -/
theorem entryFrags_fill (e : Entry Node ι φ) :
    (e.fill index fileIndex).frags = e.frags.map (Frag.fill index fileIndex) := by
  cases hc : e.children with
  | none => simp [Entry.frags, Entry.fill, openFrags_fill, Frag.fill, hc]
  | some children =>
      have hchildren : (children.map (Child.fill index fileIndex)).flatMap Child.frags =
          (children.flatMap Child.frags).map (Frag.fill index fileIndex) := by
        simp only [List.flatMap_map, List.map_flatMap, childFrags_fill]
      simp only [Entry.frags, Entry.fill, openFrags_fill, hc, Option.map_some, hchildren, List.map_append,
        List.map_cons, List.map_nil]
      rfl

theorem elements_fill (e : Entry Node ι φ) :
    (e.fill index fileIndex).elements = e.elements.map (Element.fill index fileIndex) := by
  cases hc : e.children <;> simp [Entry.elements, Entry.fill, Child.fill, hc, Function.comp_def]

end

section
variable {Node : Type} [DecidableEq Node] {tu : TranslationUnit Node} {starts : List Node}

/-- An element with the indices of the state `s`. -/
def DumpInfo.fillElement (s : DumpInfo Node) (e : SymElement Node) : Element Node Nat Nat :=
  e.fill s.indexOf s.fileIndexOf

variable (tu) in
/-- The elements that printing the node of `d` with its flag writes. -/
def nodeElements (d : Node × Bool) : List (SymElement Node) := (nodeEntry tu d.1 d.2).toList.flatMap Entry.elements

/-- The element for a queued file. -/
def fileElement (f : String × Nat) : Element Node Nat Nat :=
  ⟨"File", [("id", [.file f.2]), ("name", [.str f.1])]⟩

variable (tu) in
/-- The root element. -/
def rootElement : Element Node Nat Nat :=
  ⟨"GCC_XML", (tu.gccxmlVersionFull.toList.map fun version => ("version", [.str version])) ++
    [("cvs_revision", [.str tu.xmlCVersion])]⟩

variable (tu) in
/-- The entries of the printed nodes, with the indices of the state `s`. -/
def nodeEntries (s : DumpInfo Node) : List (Entry Node Nat Nat) :=
  s.dumped.flatMap fun d => (nodeEntry tu d.1 d.2).toList.map (Entry.fill s.indexOf s.fileIndexOf)

/-- The entries of the queued files. -/
def fileEntries (s : DumpInfo Node) : List (Entry Node Nat Nat) := s.fileQueue.map fun f => ⟨fileElement f, none⟩

/-- **The document as entries**: the root element, and in it the entries of the nodes and those of the files. -/
theorem PhasesEnd.document_entries {s₁ s₂ : DumpInfo Node} (h : PhasesEnd tu starts s₁ s₂) :
    (finishDump s₂).file = .prolog "<?xml version=\"1.0\"?>\n" :: ((rootElement tu).openFrags 0 ++
      (.endStartTag :: ((nodeEntries tu s₂ ++ fileEntries s₂).flatMap Entry.frags ++ [.endTag 0 "GCC_XML"]))) := by
  have hhead : (documentHead tu).map s₂.fillFrag =
      .prolog "<?xml version=\"1.0\"?>\n" :: ((rootElement tu).openFrags 0 ++ [.endStartTag]) := by
    unfold documentHead rootElement
    cases tu.gccxmlVersionFull <;> rfl
  have hnodes : (s₂.dumped.flatMap fun d => (entryFrags (nodeEntry tu d.1 d.2)).map s₂.fillFrag) =
      (nodeEntries tu s₂).flatMap Entry.frags := by
    simp only [nodeEntries, entryFrags, List.flatMap_assoc, List.flatMap_map, List.map_flatMap, entryFrags_fill]
    rfl
  have hfiles : (s₂.fileQueue.flatMap fun f =>
      [.startTag 2 "File", .attr "id" [.file f.2], .attr "name" [.str f.1], .emptyTag]) =
      (fileEntries s₂).flatMap Entry.frags := by
    simp only [fileEntries, List.flatMap_map]
    rfl
  rw [h.document, hhead, hnodes, hfiles]
  simp only [List.cons_append, List.append_assoc, List.flatMap_append, List.nil_append]

/-- **The elements of the document**: the root, those of the printed nodes and those of the files. -/
theorem PhasesEnd.elements {s₁ s₂ : DumpInfo Node} (h : PhasesEnd tu starts s₁ s₂) :
    elements (finishDump s₂).file =
      rootElement tu :: (s₂.dumped.flatMap fun d => (nodeElements tu d).map s₂.fillElement) ++
        s₂.fileQueue.map fileElement := by
  have hnodes : (nodeEntries tu s₂).flatMap Entry.elements =
      s₂.dumped.flatMap fun d => (nodeElements tu d).map s₂.fillElement := by
    simp only [nodeEntries, nodeElements, List.flatMap_assoc, List.flatMap_map, List.map_flatMap, elements_fill]
    rfl
  have hfiles : (fileEntries s₂).flatMap Entry.elements = s₂.fileQueue.map fileElement := by
    simp only [fileEntries, List.flatMap_map, Entry.elements, Option.getD_none, List.map_nil]
    exact (List.map_eq_flatMap ..).symm
  rw [h.document_entries]
  show GccXml.elements ((rootElement tu).openFrags 0 ++ _) = _
  rw [elements_openFrags (rootElement tu) 0 rfl]
  show rootElement tu :: GccXml.elements (_ ++ [.endTag 0 "GCC_XML"]) = _
  rw [elements_entries, List.flatMap_append, hnodes, hfiles]
  simp [GccXml.elements]

theorem PhasesEnd.mem_elements {s₁ s₂ : DumpInfo Node} (h : PhasesEnd tu starts s₁ s₂) {e : Element Node Nat Nat} :
    e ∈ GccXml.elements (finishDump s₂).file ↔
      e = rootElement tu ∨ (∃ d ∈ s₂.dumped, ∃ e' ∈ nodeElements tu d, s₂.fillElement e' = e) ∨
        ∃ f ∈ s₂.fileQueue, fileElement f = e := by
  rw [h.elements]
  simp only [List.cons_append, List.mem_cons, List.mem_append, List.mem_flatMap, List.mem_map]

/-! ## Ids -/

/-- The value of the attribute `name`. -/
def Element.attr? {ι φ : Type} (e : Element Node ι φ) (name : String) : Option (List (Piece Node ι φ)) :=
  (e.attrs.find? fun a => a.1 = name).map (·.2)

/-- The `id` of an element of the document. -/
def Element.idText (e : Element Node Nat Nat) : Option String := (e.attr? "id").map valueText

omit [DecidableEq Node] in
theorem Element.attr?_eq_none {ι φ : Type} {e : Element Node ι φ} {name : String} (h : name ∉ e.attrs.map (·.1)) :
    e.attr? name = none := by
  have hfind : (e.attrs.find? fun a => decide (a.1 = name)) = none := by
    rw [List.find?_eq_none]
    intro a ha hname
    exact h (List.mem_map.mpr ⟨a, ha, by simpa using hname⟩)
  rw [Element.attr?, hfind]
  rfl

omit [DecidableEq Node] in
theorem Element.attr?_of_head {ι φ : Type} {e : Element Node ι φ} {name : String} {value : List (Piece Node ι φ)}
    (h : e.attrs.head? = some (name, value)) : e.attr? name = some value := by
  cases hattrs : e.attrs with
  | nil => rw [hattrs] at h; cases h
  | cons a attrs =>
      rw [hattrs] at h
      cases Option.some.inj h
      simp [Element.attr?, hattrs]

omit [DecidableEq Node] in
/-- The id of an element with the indices filled in. -/
theorem idText_fillElement (s : DumpInfo Node) (e : SymElement Node) :
    (s.fillElement e).idText =
      (e.attr? "id").map fun value => valueText (value.map (Piece.fill s.indexOf s.fileIndexOf)) := by
  simp [Element.idText, Element.attr?, fillElement, Element.fill, List.find?_map, Function.comp_def]

/-- The codes for which `xml_dump_tree_node` calls `xml_output_cv_qualified_type`. -/
def TreeCode.isCvType : TreeCode → Bool
  | .unionType | .qualUnionType | .recordType | .arrayType | .pointerType | .referenceType | .functionType
  | .methodType | .offsetType | .enumeralType | .langType | .integerType | .booleanType | .realType
  | .voidType | .complexType => true
  | _ => false

variable (tu) in
/-- The element of `n` has the index of `n` as its id: `n` is not printed as a variant of another type. -/
def PrintsOwnId (n : Node) : Prop := (tu.treeCode n).isCvType = true → n = tu.typeMainVariant n

instance (n : Node) : Decidable (PrintsOwnId tu n) := inferInstanceAs (Decidable (_ → _))

variable (tu) in
/-- The `CvQualifiedType` element of the variant `n`. -/
def cvElement (n : Node) : SymElement Node :=
  ⟨"CvQualifiedType", attrsOf (cvQualifiedTypeAttributes n (idrefBase tu n) (idrefSuffix tu n))⟩

/-- An entry whose element has the id of `n` and whose children have none. -/
structure EntryOf (n : Node) (e : SymEntry Node) : Prop where
  head : e.element.attrs.head? = some ("id", [.id (some n)])
  children : ∀ cs ∈ e.children, ∀ child ∈ cs, child.element.attr? "id" = none

theorem argumentChildren_attr? {c : Bool} {args : List (Option (ParmDecl Node) × ArgType Node)} {endVoid : Bool} :
    ∀ child ∈ argumentChildren tu c args endVoid, child.element.attr? "id" = none := by
  intro child hchild
  rcases List.mem_append.mp hchild with hchild | hchild
  · obtain ⟨arg, -, rfl⟩ := List.mem_map.mp hchild
    have hnames := (argumentAttributes_block tu arg.1 arg.2 c).names
    exact Element.attr?_eq_none fun hmem => absurd (hnames.subset hmem) (by decide)
  · unfold ellipsisChild at hchild
    split at hchild
    · simp at hchild
    · rw [List.mem_singleton.mp hchild]; rfl

theorem baseChild_attr? (base : BaseBinfo Node) : (baseChild tu base).element.attr? "id" = none := by
  have hnames := (baseAttributes_block base (answer tu base.type)).names
  exact Element.attr?_eq_none fun hmem => absurd (hnames.subset hmem) (by decide)

omit [DecidableEq Node] in
theorem enumValueChild_attr? (tv : Option String × Node) : (enumValueChild tu tv).element.attr? "id" = none := by
  unfold enumValueChild
  split
  · have hnames := (enumValueAttributes_block tu tv.1 tv.2).names
    exact Element.attr?_eq_none fun hmem => absurd (hnames.subset hmem) (by decide)
  · rfl

theorem mainVariantEntry_entryOf {n : Node} {c : Bool} {e : SymEntry Node} (h : mainVariantEntry tu n c = some e) :
    EntryOf n e := by
  unfold mainVariantEntry at h
  split at h
  case h_17 => cases h
  -- the children of classes are their bases
  case h_1 | h_2 | h_3 =>
    cases Option.some.inj h
    refine ⟨rfl, fun cs hcs child hchild => ?_⟩
    simp only [recordChildren, Option.mem_def] at hcs
    split at hcs
    · cases hcs
    · cases Option.some.inj hcs
      obtain ⟨base, -, rfl⟩ := List.mem_map.mp hchild
      exact baseChild_attr? base
  -- the children of function and method types are their arguments
  case h_7 | h_8 =>
    cases Option.some.inj h
    refine ⟨rfl, fun cs hcs child hchild => ?_⟩
    cases Option.some.inj hcs
    exact argumentChildren_attr? child hchild
  case h_10 =>
    cases Option.some.inj h
    refine ⟨rfl, fun cs hcs child hchild => ?_⟩
    cases Option.some.inj hcs
    obtain ⟨tv, -, rfl⟩ := List.mem_map.mp hchild
    exact enumValueChild_attr? tv
  all_goals
    cases Option.some.inj h
    exact ⟨rfl, by simp⟩

/-- The entry of a node that is printed under its own id. -/
theorem exists_nodeEntry {n : Node} (c : Bool) (h : PrintsOwnId tu n) : ∃ e, nodeEntry tu n c = some e ∧ EntryOf n e := by
  unfold nodeEntry
  unfold PrintsOwnId at h
  split <;> rename_i hcode <;> simp only [hcode, TreeCode.isCvType, forall_const] at h
  case h_1 =>
    split
    · exact ⟨_, rfl, rfl, by simp⟩
    · exact ⟨_, rfl, rfl, by simp⟩
  case h_3 =>
    refine ⟨_, rfl, rfl, fun cs hcs child hchild => ?_⟩
    simp only [functionChildren, Option.mem_def] at hcs
    split at hcs
    · cases hcs
    · cases Option.some.inj hcs
      exact argumentChildren_attr? child hchild
  case h_2 | h_4 | h_5 | h_22 => exact ⟨_, rfl, rfl, by simp⟩
  all_goals
    rw [if_pos h]
    cases he : mainVariantEntry tu n c with
    | none => simp [mainVariantEntry, hcode] at he
    | some e => exact ⟨e, rfl, mainVariantEntry_entryOf he⟩

theorem nodeElements_own {n : Node} (c : Bool) (h : PrintsOwnId tu n) :
    ∃ e rest, nodeElements tu (n, c) = e :: rest ∧ e.attr? "id" = some [.id (some n)] ∧
      ∀ e' ∈ rest, e'.attr? "id" = none := by
  obtain ⟨e, he, hentry⟩ := exists_nodeEntry c h
  refine ⟨e.element, (e.children.getD []).map Child.element, ?_, Element.attr?_of_head hentry.head, fun e' he' => ?_⟩
  · simp [nodeElements, he, Entry.elements]
  · obtain ⟨child, hchild, rfl⟩ := List.mem_map.mp he'
    cases hcs : e.children with
    | none => simp [hcs] at hchild
    | some cs => exact hentry.children cs hcs child (by simpa [hcs] using hchild)

theorem nodeElements_variant {n : Node} (c : Bool) (h : ¬ PrintsOwnId tu n) :
    nodeElements tu (n, c) = if idrefSuffix tu n ≠ Quals.none then [cvElement tu n] else [] := by
  have hcode : (tu.treeCode n).isCvType = true := by
    by_contra hne
    exact h fun hcv => absurd hcv hne
  have hmain : n ≠ tu.typeMainVariant n := fun heq => h fun _ => heq
  have hentry : nodeEntry tu n c = variantEntry tu n := by
    unfold nodeEntry
    split <;> rename_i hc <;> simp only [hc, TreeCode.isCvType, Bool.false_eq_true] at hcode <;>
      exact if_neg hmain
  unfold nodeElements
  dsimp only
  rw [hentry, variantEntry]
  split <;> simp [Entry.elements, cvElement]

/-- The id text of the element of a node printed under its own id. -/
theorem PhasesEnd.exists_own {s₁ s₂ : DumpInfo Node} (h : PhasesEnd tu starts s₁ s₂) {d : Node × Bool}
    (hd : d ∈ s₂.dumped) (hown : PrintsOwnId tu d.1) :
    ∃ e ∈ GccXml.elements (finishDump s₂).file, e.idText = some (refText (s₂.index d.1) Quals.none) := by
  obtain ⟨e, rest, hels, hid, -⟩ := nodeElements_own d.2 hown
  refine ⟨s₂.fillElement e, h.mem_elements.mpr (Or.inr (Or.inl ⟨d, hd, e, ?_, rfl⟩)), ?_⟩
  · rw [hels]; exact List.mem_cons_self
  · rw [idText_fillElement, hid]
    simp [valueText, Piece.fill, Piece.text, indexOf]

/-- **Where an id comes from**: a node printed under its own id, a variant, or a file. -/
theorem PhasesEnd.idText_cases {s₁ s₂ : DumpInfo Node} (h : PhasesEnd tu starts s₁ s₂)
    {e : Element Node Nat Nat} (he : e ∈ GccXml.elements (finishDump s₂).file) {text : String}
    (ht : e.idText = some text) :
    (∃ d ∈ s₂.dumped, PrintsOwnId tu d.1 ∧ text = refText (s₂.index d.1) Quals.none) ∨
      (∃ d ∈ s₂.dumped, ¬ PrintsOwnId tu d.1 ∧ idrefSuffix tu d.1 ≠ Quals.none ∧
        e = s₂.fillElement (cvElement tu d.1) ∧
        text = refText (s₂.indexOf (idrefBase tu d.1)) (idrefSuffix tu d.1)) ∨
      ∃ i, text = fileText i := by
  rcases h.mem_elements.mp he with rfl | ⟨d, hd, e', he', rfl⟩ | ⟨f, -, rfl⟩
  · -- the root has no id, a node has its own or a variant's, a file has its number
    have hroot : (rootElement tu).idText = none := by
      unfold Element.idText Element.attr? rootElement
      cases tu.gccxmlVersionFull <;> rfl
    rw [hroot] at ht; cases ht
  · rw [idText_fillElement] at ht
    by_cases hown : PrintsOwnId tu d.1
    · obtain ⟨e₀, rest, hels, hid, hrest⟩ := nodeElements_own d.2 hown
      rw [hels] at he'
      rcases List.mem_cons.mp he' with rfl | he'
      · refine Or.inl ⟨d, hd, hown, ?_⟩
        rw [hid] at ht
        cases Option.some.inj ht
        simp [valueText, Piece.fill, Piece.text, indexOf]
      · rw [hrest e' he'] at ht; cases ht
    · rw [nodeElements_variant d.2 hown] at he'
      split at he'
      · rename_i hsuffix
        rw [List.mem_singleton] at he'
        subst he'
        refine Or.inr (Or.inl ⟨d, hd, hown, hsuffix, rfl, ?_⟩)
        have hid : (cvElement tu d.1).attr? "id" = some [.typeId d.1 (idrefBase tu d.1) (idrefSuffix tu d.1)] :=
          Element.attr?_of_head rfl
        rw [hid] at ht
        cases Option.some.inj ht
        simp [valueText, Piece.fill, Piece.text]
      · simp at he'
  · refine Or.inr (Or.inr ⟨f.2, ?_⟩)
    have hid : (fileElement f : Element Node Nat Nat).attr? "id" = some [.file f.2] := Element.attr?_of_head rfl
    rw [Element.idText, hid] at ht
    cases Option.some.inj ht
    simp [valueText, Piece.text]

end

end GccXml
