import GccXml.Lib.Pieces
import GccXml.Lib.XmlReader
import GccXml.Xml.WellFormed
import Mathlib.Data.List.TakeWhile

namespace GccXml

open XmlGrammar

/-! # `Xml.AttributeText` — the source attributes in the document

`xml_print_attributes_attribute` writes the attributes of a declaration and of its type into one value: the names
between spaces, and the arguments of each in parentheses and between commas. Whoever reads the value splits it there,
after a processor has expanded its entities and normalised its white space.

Two readers stand between the document and the attributes. The processor is that of the XML standard: it rejects a
character that a document may not contain, replaces the entities, and turns tabs and line breaks into spaces. What
comes behind it is `SplitsInto`, a relation between texts and lists of attributes of which the first part shows that a
text splits in one way. Names and arguments have no separators in them there, and neither have those of a
`StringAttribute`.

An argument is escaped by `xml_escape_string`, and reading undoes this character by character, but for white space
(`attChars_escape`). So the processor passes on what was meant exactly if it keeps each character. Where one is not
kept, the value is rejected, or what it splits into is not the two lists, since a text splits in one way. -/

/-! ## The attributes in a text -/

/-- A character at which the value is split. -/
def isSeparator (c : Char) : Bool := c = ' ' || c = ',' || c = '(' || c = ')'

/-- The text of an attribute: its name, with its arguments in parentheses if it has any. -/
def partsText (a : List Char × List (List Char)) : List Char :=
  if a.2 = [] then a.1 else a.1 ++ '(' :: [','].intercalate a.2 ++ [')']

/-- Nothing in the name or the arguments separates. -/
structure IsParts (a : List Char × List (List Char)) : Prop where
  name_ne_nil : a.1 ≠ []
  name : ∀ c ∈ a.1, isSeparator c = false
  args : ∀ arg ∈ a.2, ∀ c ∈ arg, isSeparator c = false

/-- **A text split at its spaces, parentheses and commas.** -/
def SplitsInto (text : List Char) (attributes : List (List Char × List (List Char))) : Prop :=
  text = [' '].intercalate (attributes.map partsText) ∧ ∀ a ∈ attributes, IsParts a

/-- The name and the arguments of an attribute. -/
def Attribute.parts (a : Attribute) : List Char × List (List Char) :=
  (a.purpose.toList, a.args.map fun arg => (arg.getD "").toList)

/-! ## What a processor reads -/

/-- The text that `xml_print_attributes_attribute` writes, whatever the indices are. -/
def attributesText {Node : Type} (index : Option Node → Nat) (fileIndex : String → Nat) (as bs : List Attribute) :
    List Char :=
  (fragsOf (xmlPrintAttributesAttribute as bs : Print Node Unit)).flatMap fun frag =>
    Frag.text (frag.fill index fileIndex)

/-- A processor accepts the text of the attribute and passes on its value; an attribute that is not there has none. -/
inductive ReadsAs : List Char → List Char → Prop
  | absent : ReadsAs [] []
  | present {text value : List Char} : readAttValue text = some value →
      ReadsAs (attrText ("attributes".toList, text)) value

/-- **The attributes survive**: the document has a value that splits into the two lists and into nothing else. -/
def AttributesSurvive {Node : Type} (index : Option Node → Nat) (fileIndex : String → Nat) (as bs : List Attribute) :
    Prop :=
  ∃ value, ReadsAs (attributesText index fileIndex as bs) value ∧
    ∀ attributes, SplitsInto value attributes ↔ attributes = (as ++ bs).map Attribute.parts

/-- A character of an identifier, with those that are not in ASCII. -/
def isIdentifierChar (c : Char) : Bool :=
  ('0' ≤ c && c ≤ '9') || ('A' ≤ c && c ≤ 'Z') || ('a' ≤ c && c ≤ 'z') || c = '_' || c = '$' ||
    (0xAA ≤ c.toNat && c.toNat ≤ 0xFFDC)

/-- The attribute has an identifier for its name, and its arguments are strings without separators. -/
structure StringAttribute (a : Attribute) : Prop where
  name_ne_nil : a.purpose.toList ≠ []
  name : ∀ c ∈ a.purpose.toList, isIdentifierChar c = true
  args : ∀ arg ∈ a.args, ∃ text, arg = some text ∧ ∀ c ∈ text.toList, c ≠ '\x00' ∧ isSeparator c = false

/-- A character that is passed on as itself. -/
structure Kept (c : Char) : Prop where
  xmlChar : isXmlChar c = true
  notTab : c ≠ '\t'
  notNewline : c ≠ '\n'
  notReturn : c ≠ '\r'

/-! ## The split -/

/-- The name ends where a parenthesis stands. -/
theorem takeWhile_partsText {a : List Char × List (List Char)} (h : IsParts a) :
    (partsText a).takeWhile (· ≠ '(') = a.1 := by
  have hname : ∀ c ∈ a.1, decide (c ≠ '(') = true := by
    intro c hc
    have hsep := h.name c hc
    rw [isSeparator] at hsep
    simp_all
  unfold partsText
  split
  · exact List.takeWhile_eq_self_iff.mpr hname
  · rw [List.append_assoc, List.takeWhile_append_of_pos hname, List.cons_append, List.takeWhile_cons_of_neg (by simp),
      List.append_nil]

/-- The text of an attribute gives its name and its arguments. -/
theorem partsText_inj {a b : List Char × List (List Char)} (ha : IsParts a) (hb : IsParts b)
    (h : partsText a = partsText b) : a = b := by
  have hname : a.1 = b.1 := by rw [← takeWhile_partsText ha, h, takeWhile_partsText hb]
  have hcomma : ∀ {x : List Char × List (List Char)}, IsParts x → ∀ arg ∈ x.2, ',' ∉ arg := by
    intro x hx arg harg hc
    have hsep := hx.args arg harg ',' hc
    cases hsep
  have hargs : a.2 = b.2 := by
    unfold partsText at h
    rw [hname] at h
    by_cases hnil : a.2 = []
    · by_cases hnil' : b.2 = []
      · rw [hnil, hnil']
      · rw [if_pos hnil, if_neg hnil'] at h
        simp at h
    · by_cases hnil' : b.2 = []
      · rw [if_neg hnil, if_pos hnil'] at h
        simp at h
      · rw [if_neg hnil, if_neg hnil'] at h
        have hjoined := List.append_cancel_right h
        have hjoined := (List.cons.inj (List.append_cancel_left hjoined)).2
        exact intercalate_inj (hcomma ha) (hcomma hb) hnil hnil' hjoined
  exact Prod.ext hname hargs

/-- No space is in the text of an attribute. -/
theorem space_notMem_partsText {a : List Char × List (List Char)} (h : IsParts a) : ' ' ∉ partsText a := by
  have hspace : ∀ {c : Char}, isSeparator c = false → c ≠ ' ' := by
    rintro c hc rfl
    cases hc
  have hname : ∀ c ∈ a.1, c ≠ ' ' := fun c hc => hspace (h.name c hc)
  have hargs : ∀ c ∈ [','].intercalate a.2, c ≠ ' ' :=
    forall_mem_intercalate (by simp) fun arg harg c hc => hspace (h.args arg harg c hc)
  intro hmem
  unfold partsText at hmem
  split at hmem
  · exact hname _ hmem rfl
  · simp only [List.mem_append, List.mem_cons, List.not_mem_nil, or_false] at hmem
    obtain (hmem | hmem | hmem) | hmem := hmem
    · exact hname _ hmem rfl
    · cases hmem
    · exact hargs _ hmem rfl
    · cases hmem

theorem partsText_ne_nil {a : List Char × List (List Char)} (h : IsParts a) : partsText a ≠ [] := by
  unfold partsText
  split
  · exact h.name_ne_nil
  · simp

/-- **A text splits in one way.** -/
theorem SplitsInto.unique {text : List Char} {attributes attributes' : List (List Char × List (List Char))}
    (h : SplitsInto text attributes) (h' : SplitsInto text attributes') : attributes = attributes' := by
  have hspace : ∀ {attributes : List (List Char × List (List Char))}, (∀ a ∈ attributes, IsParts a) →
      ∀ l ∈ attributes.map partsText, ' ' ∉ l := by
    intro attributes hparts l hl
    obtain ⟨a, ha, rfl⟩ := List.mem_map.mp hl
    exact space_notMem_partsText (hparts a ha)
  have hempty : ∀ {attributes : List (List Char × List (List Char))}, (∀ a ∈ attributes, IsParts a) →
      [' '].intercalate (attributes.map partsText) = [] → attributes = [] := by
    intro attributes hparts hnil
    cases attributes with
    | nil => rfl
    | cons a attributes =>
        rw [List.map_cons, intercalate_cons_eq, List.append_eq_nil_iff] at hnil
        exact absurd hnil.1 (partsText_ne_nil (hparts a List.mem_cons_self))
  obtain ⟨htext, hparts⟩ := h
  obtain ⟨htext', hparts'⟩ := h'
  have hjoined := htext.symm.trans htext'
  by_cases hnil : attributes = []
  · subst hnil
    exact (hempty hparts' hjoined.symm).symm
  · by_cases hnil' : attributes' = []
    · subst hnil'
      exact hempty hparts hjoined
    · have hmap := intercalate_inj (hspace hparts) (hspace hparts') (by simpa using hnil) (by simpa using hnil') hjoined
      exact map_inj_of_mem (fun a ha b hb => partsText_inj (hparts a ha) (hparts' b hb)) hmap

/-! ## Escaped texts -/

/-- A character is written as a reference or as itself. -/
theorem xmlEscapeChar_cases (c : Char) :
    (∃ name, (name, c) ∈ entityChars ∧ xmlEscapeChar c = '&' :: name ++ [';']) ∨
      xmlEscapeChar c = [c] ∧ c ≠ '&' ∧ (isXmlChar c = true → isPlain c = true) := by
  unfold xmlEscapeChar
  split
  · exact .inl ⟨"amp".toList, by decide, rfl⟩
  · exact .inl ⟨"lt".toList, by decide, rfl⟩
  · exact .inl ⟨"gt".toList, by decide, rfl⟩
  · exact .inl ⟨"apos".toList, by decide, rfl⟩
  · exact .inl ⟨"quot".toList, by decide, rfl⟩
  · next hamp _ _ _ _ => exact .inr ⟨rfl, hamp, fun hc => by simp_all [isPlain]⟩

/-- What stands for an entity is passed on as it is. -/
theorem kept_of_entity {name : List Char} {c : Char} (h : (name, c) ∈ entityChars) : isXmlChar c = true ∧ spaced c = c := by
  have hall : ∀ e ∈ entityChars, isXmlChar e.2 = true ∧ spaced e.2 = e.2 := by decide
  exact hall _ h

/-- **A processor reads an escaped text back**, but for its white space, and rejects it if one of its characters is
illegal. -/
theorem attChars_escape (s : List Char) :
    attChars none (s.flatMap xmlEscapeChar) = if s.all isXmlChar then some (s.map spaced) else none := by
  induction s with
  | nil => simp [attChars]
  | cons c s ih =>
      rw [List.flatMap_cons]
      obtain ⟨name, hname, hescape⟩ | ⟨hescape, hamp, hplain⟩ := xmlEscapeChar_cases c
      · obtain ⟨hc, hspaced⟩ := kept_of_entity hname
        have htext : xmlEscapeChar c ++ s.flatMap xmlEscapeChar = '&' :: name ++ ';' :: s.flatMap xmlEscapeChar := by
          simp [hescape]
        rw [htext, attChars_entity hname, ih]
        simp only [List.all_cons, hc, Bool.true_and, List.map_cons, hspaced]
        split <;> rfl
      · rw [hescape, List.singleton_append]
        by_cases hc : isXmlChar c = true
        · rw [attChars_plain (hplain hc), ih]
          simp only [List.all_cons, hc, Bool.true_and, List.map_cons]
          split <;> rfl
        · have hnot : ¬ isPlain c = true := fun h => hc (by simp_all [isPlain])
          have hillegal : ¬ (c :: s).all isXmlChar = true := fun h => hc (List.all_eq_true.mp h c List.mem_cons_self)
          rw [attChars, if_neg hamp, if_neg hnot, if_neg hillegal]

/-- An escaped text has no carriage return or newline but those of the text. -/
theorem lineBreak_xmlEscapeChar {c : Char} (hc : c ≠ '\r') : '\r' ∉ xmlEscapeChar c := by
  unfold xmlEscapeChar
  split
  case h_6 => simpa using hc.symm
  all_goals decide

theorem newline_escape {s t : List Char} (h : s.flatMap xmlEscapeChar = '\n' :: t) : ∃ s', s = '\n' :: s' := by
  cases s with
  | nil => cases h
  | cons c s =>
      rw [List.flatMap_cons] at h
      obtain ⟨name, -, hescape⟩ | ⟨hescape, -⟩ := xmlEscapeChar_cases c
      · rw [hescape] at h
        cases h
      · rw [hescape] at h
        cases h
        exact ⟨s, rfl⟩

theorem endOfLine_escape (s : List Char) :
    endOfLine (s.flatMap xmlEscapeChar) = (endOfLine s).flatMap xmlEscapeChar := by
  fun_induction endOfLine s with
  | case1 => rfl
  | case2 s ih => exact congrArg ('\n' :: ·) ih
  | case3 s hnewline ih =>
      have hcr : endOfLine ('\r' :: s.flatMap xmlEscapeChar) = '\n' :: endOfLine (s.flatMap xmlEscapeChar) := by
        rw [endOfLine.eq_3]
        intro t ht
        obtain ⟨s', rfl⟩ := newline_escape ht
        exact hnewline s' rfl
      exact hcr.trans (congrArg ('\n' :: ·) ih)
  | case4 c s _ hc ih =>
      rw [List.flatMap_cons, List.flatMap_cons, endOfLine_append (lineBreak_xmlEscapeChar hc), ih]

/-! ## The characters that are kept -/

theorem kept_spaced {c : Char} (hc : isXmlChar c = true) : Kept (spaced c) := by
  unfold spaced
  split
  · exact ⟨by decide, by decide, by decide, by decide⟩
  · next hspace =>
      refine ⟨hc, ?_, ?_, ?_⟩
      all_goals rintro rfl; exact hspace rfl

theorem Kept.spaced {c : Char} (h : Kept c) : XmlGrammar.spaced c = c := by
  unfold XmlGrammar.spaced
  split
  · next hspace =>
      have hblank : c = ' ' := by simpa [isSpace, h.notTab, h.notNewline, h.notReturn] using hspace
      exact hblank.symm
  · rfl

theorem toNat_isIdentifierChar {c : Char} (h : isIdentifierChar c = true) : 0x20 ≤ c.toNat ∧ c.toNat ≤ 0xFFDC := by
  simp only [isIdentifierChar, Bool.or_eq_true, Bool.and_eq_true, decide_eq_true_eq, Char.le_def,
    UInt32.le_iff_toNat_le] at h
  show 0x20 ≤ c.val.toNat ∧ c.val.toNat ≤ 0xFFDC
  obtain (((((h | h) | h) | rfl) | rfl) | h) := h
  · have hdigit : 48 ≤ c.val.toNat ∧ c.val.toNat ≤ 57 := h
    omega
  · have hupper : 65 ≤ c.val.toNat ∧ c.val.toNat ≤ 90 := h
    omega
  · have hlower : 97 ≤ c.val.toNat ∧ c.val.toNat ≤ 122 := h
    omega
  · decide
  · decide
  · have hextended : 0xAA ≤ c.val.toNat ∧ c.val.toNat ≤ 0xFFDC := h
    omega

/-- The characters of identifiers are kept, and do not separate. -/
theorem kept_of_isIdentifierChar {c : Char} (h : isIdentifierChar c = true) : Kept c ∧ isSeparator c = false := by
  have hbounds := toNat_isIdentifierChar h
  have hvalid : c.toNat < 0xD800 ∨ 0xDFFF < c.toNat ∧ c.toNat < 0x110000 := c.valid
  refine ⟨⟨?_, ?_, ?_, ?_⟩, ?_⟩
  · simp only [isXmlChar, Bool.or_eq_true, Bool.and_eq_true, decide_eq_true_eq]
    omega
  · rintro rfl; cases h
  · rintro rfl; cases h
  · rintro rfl; cases h
  · by_contra hsep
    simp only [isSeparator, Bool.not_eq_false, Bool.or_eq_true, decide_eq_true_eq] at hsep
    obtain ((rfl | rfl) | rfl) | rfl := hsep
    all_goals cases h

/-- A text that is passed on is passed on unchanged only if all its characters are kept. -/
theorem kept_of_readAttValue {s value : List Char} (h : readAttValue (s.flatMap xmlEscapeChar) = some value) :
    ∀ c ∈ value, Kept c := by
  rw [readAttValue, endOfLine_escape, attChars_escape] at h
  split at h
  · next hlegal =>
      cases h
      intro c hc
      obtain ⟨d, hd, rfl⟩ := List.mem_map.mp hc
      exact kept_spaced (List.all_eq_true.mp hlegal d hd)
  · cases h

/-- What is read of the text of an attribute is read of its value. -/
theorem ReadsAs.readAttValue {s value : List Char} (h : ReadsAs (attrText ("attributes".toList, s)) value) :
    XmlGrammar.readAttValue s = some value := by
  generalize htext : attrText ("attributes".toList, s) = text at h
  cases h with
  | absent => cases htext
  | present hread => rwa [attrText_inj htext]

theorem readAttValue_escape {s : List Char} (h : ∀ c ∈ s, Kept c) : readAttValue (s.flatMap xmlEscapeChar) = some s := by
  have hcr : '\r' ∉ s := fun hmem => (h _ hmem).notReturn rfl
  have hline : endOfLine s = s := by simpa [endOfLine] using endOfLine_append hcr []
  rw [readAttValue, endOfLine_escape, hline, attChars_escape, if_pos (List.all_eq_true.mpr fun c hc => (h c hc).xmlChar),
    List.map_congr_left fun c hc => (h c hc).spaced, List.map_id']

/-! ## The text that is written -/

section

variable {Node : Type} (index : Option Node → Nat) (fileIndex : String → Nat)

/-- The text of the pieces of a value. -/
def pieceText (value : List (SymPiece Node)) : List Char :=
  value.flatMap fun piece => (piece.fill index fileIndex).text.toList

@[simp] theorem pieceText_nil : pieceText index fileIndex ([] : List (SymPiece Node)) = [] := rfl

@[simp] theorem pieceText_append (v w : List (SymPiece Node)) :
    pieceText index fileIndex (v ++ w) = pieceText index fileIndex v ++ pieceText index fileIndex w :=
  List.flatMap_append

@[simp] theorem pieceText_str (text : String) (v : List (SymPiece Node)) :
    pieceText index fileIndex (.str text :: v) = text.toList ++ pieceText index fileIndex v := rfl

@[simp] theorem pieceText_attribArg (arg : Option String) (v : List (SymPiece Node)) :
    pieceText index fileIndex (attribArg arg :: v) =
      (arg.getD "").toList.flatMap xmlEscapeChar ++ pieceText index fileIndex v := by
  rw [attribArg, pieceText_str, xmlGetEncodedStringFromString, xmlEscapeString, String.toList_ofList]

theorem pieceText_flatMap {α : Type} (xs : List α) (f : α → List (SymPiece Node)) :
    pieceText index fileIndex (xs.flatMap f) = xs.flatMap fun x => pieceText index fileIndex (f x) :=
  List.flatMap_assoc

/-- The text of an attribute is that of its parts, escaped. -/
theorem pieceText_attributeText (a : Attribute) :
    pieceText index fileIndex (attributeText a) = (partsText a.parts).flatMap xmlEscapeChar := by
  have hname : (xmlGetEncodedString (some a.purpose)).toList = a.purpose.toList.flatMap xmlEscapeChar := by
    rw [xmlGetEncodedString, xmlGetEncodedStringFromString, xmlEscapeString, String.toList_ofList]
  have hseparators : xmlEscapeChar '(' = ['('] ∧ xmlEscapeChar ',' = [','] ∧ xmlEscapeChar ')' = [')'] := ⟨rfl, rfl, rfl⟩
  rw [attributeText, pieceText_str, hname, partsText]
  cases hargs : a.args with
  | nil => simp [Attribute.parts, hargs]
  | cons arg args =>
      simp [Attribute.parts, hargs, intercalate_cons_eq, pieceText_flatMap, List.flatMap_map, List.flatMap_assoc,
        hseparators]

/-- The text of the `attributes` attribute. -/
theorem attributesText_eq (as bs : List Attribute) :
    attributesText index fileIndex as bs =
      if as ++ bs = [] then [] else
        attrText ("attributes".toList,
          ([' '].intercalate (((as ++ bs).map Attribute.parts).map partsText)).flatMap xmlEscapeChar) := by
  unfold attributesText xmlPrintAttributesAttribute
  cases as ++ bs with
  | nil => rfl
  | cons a rest =>
      have hvalue : pieceText index fileIndex (attributeText a ++ rest.flatMap fun a => .str " " :: attributeText a) =
          ([' '].intercalate (((a :: rest).map Attribute.parts).map partsText)).flatMap xmlEscapeChar := by
        have hspace : xmlEscapeChar ' ' = [' '] := rfl
        simp [pieceText_flatMap, pieceText_attributeText, intercalate_cons_eq, List.flatMap_map, List.flatMap_assoc,
          hspace]
      have htext : ∀ value : List (SymPiece Node),
          Frag.text ((Frag.attr "attributes" value).fill index fileIndex) =
            attrText ("attributes".toList, pieceText index fileIndex value) := by
        intro value
        simp [Frag.fill, Frag.text, attrText, valueText, pieceText, List.flatMap_map]
      rw [if_neg (List.cons_ne_nil _ _), fragsOf_writeAttr, List.flatMap_singleton, htext, hvalue]

end

/-! ## The round trip -/

/-- The parts of an attribute of strings are not separated. -/
theorem StringAttribute.isParts {a : Attribute} (h : StringAttribute a) : IsParts a.parts where
  name_ne_nil := h.name_ne_nil
  name c hc := (kept_of_isIdentifierChar (h.name c hc)).2
  args := by
    intro arg harg c hc
    obtain ⟨arg, hmem, rfl⟩ := List.mem_map.mp harg
    obtain ⟨text, rfl, htext⟩ := h.args arg hmem
    exact (htext c hc).2

/-- The text of an attribute is kept when its arguments are. -/
theorem kept_partsText {a : Attribute} (h : StringAttribute a)
    (hargs : ∀ text, some text ∈ a.args → ∀ c ∈ text.toList, Kept c) : ∀ c ∈ partsText a.parts, Kept c := by
  have hseparators : Kept '(' ∧ Kept ',' ∧ Kept ')' := by
    refine ⟨⟨?_, ?_, ?_, ?_⟩, ⟨?_, ?_, ?_, ?_⟩, ⟨?_, ?_, ?_, ?_⟩⟩
    all_goals decide
  have hname : ∀ c ∈ a.parts.1, Kept c := fun c hc => (kept_of_isIdentifierChar (h.name c hc)).1
  have hjoined : ∀ c ∈ [','].intercalate a.parts.2, Kept c := by
    refine forall_mem_intercalate (by simpa using hseparators.2.1) fun arg harg c hc => ?_
    obtain ⟨arg, hmem, rfl⟩ := List.mem_map.mp harg
    obtain ⟨text, rfl, -⟩ := h.args arg hmem
    exact hargs text hmem c hc
  intro c hc
  unfold partsText at hc
  split at hc
  · exact hname c hc
  · simp only [List.mem_append, List.mem_cons, List.not_mem_nil, or_false] at hc
    obtain (hc | rfl | hc) | rfl := hc
    · exact hname c hc
    · exact hseparators.1
    · exact hjoined c hc
    · exact hseparators.2.2

/-- **When the attributes survive.** A processor reads the two lists back exactly when every character of the arguments
is one that a document may contain, and none is a tab or a line break: a processor rejects the others, and passes on
spaces for these. -/
theorem attributesSurvive_iff {Node : Type} (index : Option Node → Nat) (fileIndex : String → Nat)
    (as bs : List Attribute) (h : ∀ a ∈ as ++ bs, StringAttribute a) :
    AttributesSurvive index fileIndex as bs ↔
      ∀ a ∈ as ++ bs, ∀ text, some text ∈ a.args → ∀ c ∈ text.toList, Kept c := by
  have hsplit : SplitsInto ([' '].intercalate (((as ++ bs).map Attribute.parts).map partsText))
      ((as ++ bs).map Attribute.parts) := by
    refine ⟨rfl, ?_⟩
    intro parts hparts
    obtain ⟨a, ha, rfl⟩ := List.mem_map.mp hparts
    exact (h a ha).isParts
  rw [AttributesSurvive, attributesText_eq]
  constructor
  · rintro ⟨value, hread, hvalue⟩ a ha text htext c hc
    have hsame := ((hvalue _).mpr rfl).1
    -- the value is read back unchanged, and a reader keeps no other characters
    rw [if_neg (List.ne_nil_of_mem ha)] at hread
    have hkept := kept_of_readAttValue hread.readAttValue
    rw [hsame] at hkept
    refine hkept c (mem_intercalate_of_mem (List.mem_map_of_mem (List.mem_map_of_mem ha)) ?_)
    have harg : text.toList ∈ a.parts.2 := List.mem_map.mpr ⟨some text, htext, rfl⟩
    rw [partsText, if_neg (List.ne_nil_of_mem harg)]
    have hjoined : c ∈ [','].intercalate a.parts.2 := mem_intercalate_of_mem harg hc
    simp [hjoined]
  · intro hkept
    refine ⟨_, ?_, fun attributes => ⟨fun hother => hother.unique hsplit, fun heq => heq ▸ hsplit⟩⟩
    split
    · next hnil =>
        rw [hnil]
        exact .absent
    · refine .present (readAttValue_escape (forall_mem_intercalate ?_ ?_))
      · -- the separators are kept as well as the arguments
        have hspace : Kept ' ' := ⟨by decide, by decide, by decide, by decide⟩
        simpa using hspace
      · intro l hl
        obtain ⟨parts, hparts, rfl⟩ := List.mem_map.mp hl
        obtain ⟨a, ha, rfl⟩ := List.mem_map.mp hparts
        exact kept_partsText (h a ha) (hkept a ha)

/-! ### The attributes of a declaration -/

/-- `__attribute__((gccxml("in", "a<b"), deprecated))` on a declaration and `__attribute__((gccxml("out")))` on its type
survive, as their characters are kept. -/
theorem attributesSurvive_iff_gccxml :
    AttributesSurvive (fun _ : Option Unit => 0) (fun _ => 0) [⟨"gccxml", [some "in", some "a<b"]⟩, ⟨"deprecated", []⟩]
        [⟨"gccxml", [some "out"]⟩] ∧
      ∀ a ∈ [(⟨"gccxml", [some "in", some "a<b"]⟩ : Attribute), ⟨"deprecated", []⟩] ++ [⟨"gccxml", [some "out"]⟩],
        ∀ text, some text ∈ a.args → ∀ c ∈ text.toList, Kept c := by
  have hstring : ∀ a ∈ [(⟨"gccxml", [some "in", some "a<b"]⟩ : Attribute), ⟨"deprecated", []⟩] ++
      [⟨"gccxml", [some "out"]⟩], StringAttribute a := by
    intro a ha
    have hcases : a = ⟨"gccxml", [some "in", some "a<b"]⟩ ∨ a = ⟨"deprecated", []⟩ ∨ a = ⟨"gccxml", [some "out"]⟩ := by
      simpa using ha
    obtain rfl | rfl | rfl := hcases
    · exact ⟨by decide, List.all_eq_true.mp (by decide), by simp [isSeparator]⟩
    · exact ⟨by decide, List.all_eq_true.mp (by decide), by simp⟩
    · exact ⟨by decide, List.all_eq_true.mp (by decide), by simp [isSeparator]⟩
  have hkept : ∀ a ∈ [(⟨"gccxml", [some "in", some "a<b"]⟩ : Attribute), ⟨"deprecated", []⟩] ++
      [⟨"gccxml", [some "out"]⟩], ∀ text, some text ∈ a.args → ∀ c ∈ text.toList, Kept c := by
    intro a ha text htext c hc
    have hchar : ['i', 'n', 'a', '<', 'b', 'o', 'u', 't'].contains c = true := by
      have hcases : a = ⟨"gccxml", [some "in", some "a<b"]⟩ ∨ a = ⟨"deprecated", []⟩ ∨ a = ⟨"gccxml", [some "out"]⟩ := by
        simpa using ha
      obtain rfl | rfl | rfl := hcases
      · obtain rfl | rfl : text = "in" ∨ text = "a<b" := by simpa using htext
        · exact List.all_eq_true.mp (by decide) c hc
        · exact List.all_eq_true.mp (by decide) c hc
      · cases htext
      · obtain rfl : text = "out" := by simpa using htext
        exact List.all_eq_true.mp (by decide) c hc
    rw [List.contains_iff_mem] at hchar
    simp only [List.mem_cons, List.not_mem_nil, or_false] at hchar
    rcases hchar with rfl | rfl | rfl | rfl | rfl | rfl | rfl | rfl <;> exact ⟨by decide, by decide, by decide, by decide⟩
  exact ⟨(attributesSurvive_iff (fun _ : Option Unit => 0) (fun _ => 0) _ _ hstring).mpr hkept, hkept⟩

/-- Of `__attribute__((gccxml("a\tb")))` a processor passes on the argument `a b`. -/
theorem attributesSurvive_tab :
    ¬ AttributesSurvive (fun _ : Option Unit => 0) (fun _ => 0) [⟨"gccxml", [some "a\tb"]⟩] [] := by
  rintro ⟨value, hread, hvalue⟩
  have hsame := ((hvalue _).mpr rfl).1
  rw [attributesText_eq, if_neg (by simp)] at hread
  have htab := kept_of_readAttValue hread.readAttValue '\t'
  rw [hsame] at htab
  exact (htab (by decide)).notTab rfl

end GccXml
