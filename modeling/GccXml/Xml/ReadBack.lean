import GccXml.Lib.Words
import GccXml.Lib.XmlDocument
import GccXml.Xml.AttributeText
import GccXml.Xml.TypeReferences

namespace GccXml

/-! # `Xml.ReadBack` — reading the document back

What a processor reads of the document: the elements that were written, in their order and nesting, with the values of
their attributes. Whoever follows a reference in them looks for the element with this id, and comes to the element of
the node that `xml.c` meant. -/

open DumpInfo
open XmlGrammar (isSpace isPlain attrText openTag attValue attValues readAttValue Forest ReadElement Spells readDocument
  withId)

/-! ## The elements as they are read -/

section
variable {Node : Type}

/-- The element that is read, with the elements that are read in it. -/
def Element.read (e : Element Node Nat Nat) (content : Forest) : ReadElement :=
  ⟨e.tag.toList, attValues e.attrTexts, content⟩

/-- An entry as it is read: the element, and in it its children. -/
def Entry.read (e : Entry Node Nat Nat) : ReadElement :=
  e.element.read (.ofElements ((e.children.getD []).map fun child => child.element.read .nil))

variable {rest : Forest} {cs : List Char}

theorem spells_child {child : Child Node Nat Nat} (h : child.element.WellFormed) (hcs : Spells rest cs) :
    Spells (.cons child.element.tag.toList (attValues child.element.attrTexts) .nil rest)
      (child.frags.flatMap Frag.text ++ cs) := by
  have hblanks : ∀ c ∈ (child.blanks.toList.map Frag.blanks).flatMap (@Frag.text Node), isSpace c = true := by
    cases child.blanks with
    | none => simp
    | some count => simpa [Frag.text] using isSpace_replicate count
  have hnewline : Spells rest ('\n' :: cs) := .space (by decide) hcs
  have helement := Spells.empty h.tag h.attrs hnewline
  have hindented := Spells.spaces hblanks (Spells.spaces (isSpace_replicate child.indent) helement)
  simpa [Child.frags, text_openFrags, Frag.text] using hindented

/-- The children of an entry, on their lines. -/
theorem spells_children {children : List (Child Node Nat Nat)} (h : ∀ child ∈ children, child.element.WellFormed) :
    Spells (.ofElements (children.map fun child => child.element.read .nil))
      (children.flatMap (fun child => child.frags.flatMap Frag.text) ++ List.replicate 2 ' ') := by
  induction children with
  | nil =>
      have hindent := Spells.spaces (isSpace_replicate 2) Spells.nil
      rw [List.append_nil] at hindent
      exact hindent
  | cons child children ih =>
      rw [List.flatMap_cons, List.append_assoc]
      exact spells_child (h child List.mem_cons_self) (ih fun c hc => h c (List.mem_cons_of_mem _ hc))

/-- **The text of an entry** is read as the entry. -/
theorem spells_entry {e : Entry Node Nat Nat} (h : e.WellFormed) (hcs : Spells rest cs) :
    Spells (.cons e.read.tag e.read.attrs e.read.content rest) (e.frags.flatMap Frag.text ++ cs) := by
  have hnewline : Spells rest ('\n' :: cs) := .space (by decide) hcs
  show Spells (.cons e.element.tag.toList (attValues e.element.attrTexts)
    (.ofElements ((e.children.getD []).map fun child => child.element.read .nil)) rest) _
  cases hchildren : e.children with
  | none =>
      have helement := Spells.empty h.element.tag h.element.attrs hnewline
      have hindented := Spells.spaces (isSpace_replicate 2) helement
      simpa [Entry.frags, hchildren, text_openFrags, Frag.text, Forest.ofElements] using hindented
  | some children =>
      have hwf := h.children
      rw [hchildren, Option.getD_some] at hwf
      have hcontent := Spells.space (show isSpace '\n' = true by decide) (spells_children fun c hc => (hwf c hc).1)
      have helement := Spells.nested h.element.tag h.element.attrs hcontent hnewline
      have hindented := Spells.spaces (isSpace_replicate 2) helement
      simpa [Entry.frags, hchildren, text_openFrags, Frag.text, XmlGrammar.endTag, List.flatMap_assoc] using hindented

theorem spells_entries {es : List (Entry Node Nat Nat)} (h : ∀ e ∈ es, e.WellFormed) :
    Spells (.ofElements (es.map Entry.read)) (es.flatMap fun e => e.frags.flatMap Frag.text) := by
  induction es with
  | nil => exact .nil
  | cons e es ih =>
      rw [List.flatMap_cons]
      exact spells_entry (h e List.mem_cons_self) (ih fun e' he' => h e' (List.mem_cons_of_mem _ he'))

end

/-! ## The document -/

section
variable {Node : Type} [DecidableEq Node] {tu : TranslationUnit Node} {starts : List Node}

variable (tu) in
/-- What is read in the root element: the elements of the nodes that were dumped, and those of the files. -/
def readElements (s : DumpInfo Node) : List ReadElement := (nodeEntries tu s ++ fileEntries s).map Entry.read

variable (tu) in
/-- The document that is read. -/
def readForest (s : DumpInfo Node) : Forest :=
  .cons "GCC_XML".toList (attValues (rootElement tu).attrTexts) (.ofElements (readElements tu s)) .nil

theorem PhasesEnd.entries_wellFormed [LegalTexts tu] {s₁ s₂ : DumpInfo Node} (h : PhasesEnd tu starts s₁ s₂) :
    ∀ e ∈ nodeEntries tu s₂ ++ fileEntries s₂, e.WellFormed := by
  intro e he
  rcases List.mem_append.mp he with he | he
  · obtain ⟨d, -, he⟩ := List.mem_flatMap.mp he
    obtain ⟨entry, hentry, rfl⟩ := List.mem_map.mp he
    exact (wellFormed_nodeEntry (Option.mem_toList.mp hentry) _ _).1
  · obtain ⟨f, hf, rfl⟩ := List.mem_map.mp he
    exact ⟨fileElement_wellFormed (h.safeFiles f hf), fun child hchild => by simp at hchild⟩

/-- **The text of a run is read as what was dumped.** -/
theorem PhasesEnd.readDocument [LegalTexts tu] {s₁ s₂ : DumpInfo Node} (h : PhasesEnd tu starts s₁ s₂) :
    XmlGrammar.readDocument (documentText (finishDump s₂).file) = some (readForest tu s₂) := by
  have hentries := Spells.space (show isSpace '\n' = true by decide) (spells_entries h.entries_wellFormed)
  have hafter := Spells.space (show isSpace '\n' = true by decide) Spells.nil
  have hroot := rootElement_wellFormed tu
  have htag : (rootElement tu).tag.toList = "GCC_XML".toList := rfl
  have helement := Spells.nested hroot.tag hroot.attrs hentries hafter
  rw [htag] at helement
  rw [readForest, readElements,
    ← XmlGrammar.readDocument_spells (Spells.space (show isSpace '\n' = true by decide) helement), h.document_entries]
  simp [documentText, text_openFrags, htag, Frag.text, XmlGrammar.endTag, List.flatMap_assoc]

end

end GccXml
