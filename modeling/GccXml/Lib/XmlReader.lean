import GccXml.Lib.XmlGrammar

namespace GccXml

/-! # `Lib.XmlReader` — what a processor reads of an attribute value

An XML processor turns every line break into a line feed, expands the references in an attribute value, and passes on
a space for each white space character that stands there by itself. Where the value does not match the grammar, it
reports an error. -/

namespace XmlGrammar

/-! ## References -/

/-- `[0-9a-fA-F]`. -/
def isHexDigit (c : Char) : Bool := c.isDigit || ('a' ≤ c && c ≤ 'f') || ('A' ≤ c && c ≤ 'F')

/-- The value of a digit of a character reference. -/
def digitValue (c : Char) : Nat :=
  if c.isDigit then c.toNat - '0'.toNat else c.toLower.toNat - 'a'.toNat + 10

/-- The character with the number that `digits` are in the base `base`, if a document may contain it. -/
def numberedChar (base : Nat) (digits : List Char) : Option Char :=
  let c := Char.ofNat (digits.foldl (fun n digit => base * n + digitValue digit) 0)
  if digits ≠ [] ∧ isXmlChar c then some c else none

/-- `CharRef`, after the `#`. -/
def charRef : List Char → Option Char
  | 'x' :: digits => if digits.all isHexDigit then numberedChar 16 digits else none
  | digits => if digits.all Char.isDigit then numberedChar 10 digits else none

/-- The predefined entities with the characters that they stand for. -/
def entityChars : List (List Char × Char) := predefinedEntities.zip ['&', '<', '>', '\'', '"']

/-- `Reference`, between `&` and `;`: a character or a predefined entity. -/
def reference : List Char → Option Char
  | '#' :: ref => charRef ref
  | name => entityChars.lookup name

/-! ## Attribute values -/

/-- Every line break is passed on as a line feed. -/
def endOfLine : List Char → List Char
  | [] => []
  | '\r' :: '\n' :: cs => '\n' :: endOfLine cs
  | '\r' :: cs => '\n' :: endOfLine cs
  | c :: cs => c :: endOfLine cs

/-- What is passed on for a character that stands by itself. -/
def spaced (c : Char) : Char := if isSpace c then ' ' else c

/-- The characters of an attribute value; in a reference, `name` is what was read of it. -/
def attChars : Option (List Char) → List Char → Option (List Char)
  | none, [] => some []
  | none, c :: cs =>
      if c = '&' then attChars (some []) cs
      else if isPlain c then (attChars none cs).map (spaced c :: ·)
      else none
  | some _, [] => none
  | some name, c :: cs =>
      if c = ';' then (reference name).bind fun char => (attChars none cs).map (char :: ·)
      else attChars (some (name ++ [c])) cs

/-- **What a processor passes on** for the text between the quotes, or `none` for an error. -/
def readAttValue (text : List Char) : Option (List Char) := attChars none (endOfLine text)

theorem endOfLine_append {s : List Char} (hs : '\r' ∉ s) (t : List Char) : endOfLine (s ++ t) = s ++ endOfLine t := by
  induction s with
  | nil => rfl
  | cons c s ih =>
      rw [List.mem_cons, not_or] at hs
      have hstep : endOfLine (c :: (s ++ t)) = c :: endOfLine (s ++ t) := by
        rw [endOfLine.eq_4 _ _ (fun _ h => absurd h.symm hs.1) fun h => hs.1 h.symm]
      rw [List.cons_append, hstep, ih hs.2, List.cons_append]

/-- A character that stands for itself. -/
theorem attChars_plain {c : Char} (hc : isPlain c = true) (cs : List Char) :
    attChars none (c :: cs) = (attChars none cs).map (spaced c :: ·) := by
  have hamp : c ≠ '&' := by
    rintro rfl
    cases hc
  rw [attChars, if_neg hamp, if_pos hc]

/-- A reference to a predefined entity. -/
theorem attChars_entity {name : List Char} {char : Char} (h : (name, char) ∈ entityChars) (cs : List Char) :
    attChars none ('&' :: name ++ ';' :: cs) = (attChars none cs).map (char :: ·) := by
  simp only [entityChars, predefinedEntities, List.zip_cons_cons, List.zip_nil_right, List.mem_cons, Prod.mk.injEq,
    List.not_mem_nil, or_false] at h
  obtain ⟨rfl, rfl⟩ | ⟨rfl, rfl⟩ | ⟨rfl, rfl⟩ | ⟨rfl, rfl⟩ | ⟨rfl, rfl⟩ := h
  all_goals rfl

/-- The text of an attribute has one value in it. -/
theorem attrText_inj {name s t : List Char} (h : attrText (name, s) = attrText (name, t)) : s = t := by
  have hquoted := List.append_cancel_right h
  have hvalue := List.append_cancel_left (List.cons.inj hquoted).2
  exact (List.cons.inj (List.cons.inj hvalue).2).2

end XmlGrammar

end GccXml
