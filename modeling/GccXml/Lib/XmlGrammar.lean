import Mathlib.Data.List.Nodup

namespace GccXml

/-! # `Lib.XmlGrammar` — the grammar of XML documents

The productions of XML 1.0 that a document without comments, processing instructions, CDATA sections and declarations
of its own uses, over lists of characters. A content model says which elements may stand in which; the two
well-formedness constraints on tags and attributes are part of the rules. -/

namespace XmlGrammar

/-! ## Characters and names -/

/-- `Char`: the characters that a document may contain. -/
def isXmlChar (c : Char) : Bool :=
  let n := c.toNat
  n = 0x9 || n = 0xA || n = 0xD || (0x20 ≤ n && n ≤ 0xD7FF) || (0xE000 ≤ n && n ≤ 0xFFFD) ||
    (0x10000 ≤ n && n ≤ 0x10FFFF)

/-- `S`: white space. -/
def isSpace (c : Char) : Bool := c = ' ' || c = '\t' || c = '\n' || c = '\r'

/-- `NameStartChar`. -/
def isNameStartChar (c : Char) : Bool :=
  let n := c.toNat
  c = ':' || c = '_' || c.isAlpha || (0xC0 ≤ n && n ≤ 0xD6) || (0xD8 ≤ n && n ≤ 0xF6) || (0xF8 ≤ n && n ≤ 0x2FF) ||
    (0x370 ≤ n && n ≤ 0x37D) || (0x37F ≤ n && n ≤ 0x1FFF) || (0x200C ≤ n && n ≤ 0x200D) ||
    (0x2070 ≤ n && n ≤ 0x218F) || (0x2C00 ≤ n && n ≤ 0x2FEF) || (0x3001 ≤ n && n ≤ 0xD7FF) ||
    (0xF900 ≤ n && n ≤ 0xFDCF) || (0xFDF0 ≤ n && n ≤ 0xFFFD) || (0x10000 ≤ n && n ≤ 0xEFFFF)

/-- `NameChar`. -/
def isNameChar (c : Char) : Bool :=
  let n := c.toNat
  isNameStartChar c || c = '-' || c = '.' || c.isDigit || n = 0xB7 || (0x300 ≤ n && n ≤ 0x36F) ||
    (0x203F ≤ n && n ≤ 0x2040)

/-- `Name`. -/
def isName : List Char → Bool
  | [] => false
  | c :: cs => isNameStartChar c && cs.all isNameChar

/-! ## Attribute values -/

/-- The names of the predefined entities. -/
def predefinedEntities : List (List Char) :=
  ["amp".toList, "lt".toList, "gt".toList, "apos".toList, "quot".toList]

/-- The characters that may stand for themselves between double quotes. -/
def isPlain (c : Char) : Bool := isXmlChar c && c ≠ '<' && c ≠ '&' && c ≠ '"'

/-- `AttValue`, without its double quotes: characters other than `<`, `&` and `"`, and references to predefined
    entities. -/
inductive AttText : List Char → Prop
  | nil : AttText []
  | char {c : Char} {cs : List Char} : isPlain c = true → AttText cs → AttText (c :: cs)
  | entity {name cs : List Char} : name ∈ predefinedEntities → AttText cs → AttText ('&' :: name ++ ';' :: cs)

namespace AttText

theorem append {s t : List Char} (hs : AttText s) (ht : AttText t) : AttText (s ++ t) := by
  induction hs with
  | nil => exact ht
  | char hc _ ih => exact .char hc ih
  | @entity name cs hname _ ih =>
      have hassoc : ('&' :: name ++ ';' :: cs) ++ t = '&' :: name ++ ';' :: (cs ++ t) := by simp
      rw [hassoc]
      exact .entity hname ih

theorem of_plain {s : List Char} (h : ∀ c ∈ s, isPlain c = true) : AttText s := by
  induction s with
  | nil => exact .nil
  | cons c cs ih => exact .char (h c List.mem_cons_self) (ih fun d hd => h d (List.mem_cons_of_mem _ hd))

theorem flatMap {α : Type} {xs : List α} {f : α → List Char} (h : ∀ x ∈ xs, AttText (f x)) : AttText (xs.flatMap f) := by
  induction xs with
  | nil => exact .nil
  | cons x xs ih =>
      rw [List.flatMap_cons]
      exact (h x List.mem_cons_self).append (ih fun y hy => h y (List.mem_cons_of_mem _ hy))

end AttText

/-! ## Elements -/

/-- `Attribute`, with the white space before it. -/
def attrText (a : List Char × List Char) : List Char := ' ' :: a.1 ++ '=' :: '"' :: a.2 ++ ['"']

/-- The attributes of a tag: they have names and values, and no name is repeated. -/
structure WellFormedAttrs (attrs : List (List Char × List Char)) : Prop where
  names : ∀ a ∈ attrs, isName a.1 = true
  values : ∀ a ∈ attrs, AttText a.2
  nodup : (attrs.map (·.1)).Nodup

/-- The start of a tag with its attributes. -/
def openTag (tag : List Char) (attrs : List (List Char × List Char)) : List Char := '<' :: tag ++ attrs.flatMap attrText

/-- `ETag`. -/
def endTag (tag : List Char) : List Char := '<' :: '/' :: tag ++ ['>']

mutual

/-- `element`: the text of an element with the tag `tag`. A start tag is closed by the end tag of the same name, and
    what stands between them is the content that `allowed` admits in `tag`. -/
inductive IsElement (allowed : List Char → List Char → Prop) : List Char → List Char → Prop
  | empty {tag : List Char} {attrs : List (List Char × List Char)} : isName tag = true → WellFormedAttrs attrs →
      IsElement allowed tag (openTag tag attrs ++ ['/', '>'])
  | nested {tag content : List Char} {attrs : List (List Char × List Char)} : isName tag = true →
      WellFormedAttrs attrs → IsContent allowed tag content →
      IsElement allowed tag (openTag tag attrs ++ ['>'] ++ content ++ endTag tag)

/-- `content`: white space and the elements that are allowed in `tag`. -/
inductive IsContent (allowed : List Char → List Char → Prop) : List Char → List Char → Prop
  | nil {tag : List Char} : IsContent allowed tag []
  | space {tag cs : List Char} {c : Char} : isSpace c = true → IsContent allowed tag cs →
      IsContent allowed tag (c :: cs)
  | element {tag child e cs : List Char} : allowed tag child → IsElement allowed child e →
      IsContent allowed tag cs → IsContent allowed tag (e ++ cs)

end

variable {allowed : List Char → List Char → Prop} {tag : List Char}

namespace IsContent

theorem spaces {s cs : List Char} (hs : ∀ c ∈ s, isSpace c = true) (h : IsContent allowed tag cs) :
    IsContent allowed tag (s ++ cs) := by
  induction s with
  | nil => exact h
  | cons c s ih => exact .space (hs c List.mem_cons_self) (ih fun d hd => hs d (List.mem_cons_of_mem _ hd))

/-- A text that can stand before any content can stand before it for each entry of a list. -/
theorem flatMap {α : Type} {xs : List α} {f : α → List Char}
    (h : ∀ x ∈ xs, ∀ cs, IsContent allowed tag cs → IsContent allowed tag (f x ++ cs)) {cs : List Char}
    (hcs : IsContent allowed tag cs) : IsContent allowed tag (xs.flatMap f ++ cs) := by
  induction xs with
  | nil => exact hcs
  | cons x xs ih =>
      rw [List.flatMap_cons, List.append_assoc]
      exact h x List.mem_cons_self _ (ih fun y hy => h y (List.mem_cons_of_mem _ hy))

end IsContent

/-- **A well-formed document**: an XML declaration, one root element with the tag `root`, and white space. -/
def IsDocument (allowed : List Char → List Char → Prop) (root text : List Char) : Prop :=
  ∃ before element after : List Char,
    text = "<?xml version=\"1.0\"?>".toList ++ before ++ element ++ after ∧
      (∀ c ∈ before, isSpace c = true) ∧ IsElement allowed root element ∧ ∀ c ∈ after, isSpace c = true

end XmlGrammar

end GccXml
