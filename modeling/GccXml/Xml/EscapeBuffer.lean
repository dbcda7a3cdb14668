import GccXml.Lib.Block
import GccXml.Xml.FileTable

namespace GccXml

/-! # `Xml.EscapeBuffer` — `xml_escape_string` in memory

`xml_escape_string` walks over the string twice. The first walk counts how much longer the encoded form is, and the
second one writes it into a block of the size that was counted. Each walk has its own `switch`; that they agree on
every character is what makes the block large enough, and no larger.

The walks are stated over a block of memory (`Lib.Block`) in which a prefix has been written. `switches_agree` is the
one case distinction over characters: it ties the count, the writing and `xmlEscapeChar` together for a single
character. By induction the first walk counts the length of the encoded form and the second one fills the block with it
and its NUL, so `escapeInMemory_eq` gives the function that the rest of the model uses.

What is in the encoded form is said without the function: `Encodes` relates a text and its form, the form has no raw
special character, and every `&` in it begins an entity. `encodes_exactly` adds that decoding gives back the text, and
that therefore no two texts have the same form. -/

open Block

/-! ## The function -/

def xmlAmpersand : List Char := ['&', 'a', 'm', 'p', ';']

def xmlLessThan : List Char := ['&', 'l', 't', ';']

def xmlGreaterThan : List Char := ['&', 'g', 't', ';']

def xmlSingleQuote : List Char := ['&', 'a', 'p', 'o', 's', ';']

def xmlDoubleQuote : List Char := ['&', 'q', 'u', 'o', 't', ';']

/-- The entities that the function writes. -/
def xmlEntities : List (List Char) := [xmlAmpersand, xmlLessThan, xmlGreaterThan, xmlSingleQuote, xmlDoubleQuote]

/-- The `switch` of the first loop. -/
def lengthIncreaseOf : Char → Nat
  | '&' => xmlAmpersand.length - 1
  | '<' => xmlLessThan.length - 1
  | '>' => xmlGreaterThan.length - 1
  | '\'' => xmlSingleQuote.length - 1
  | '"' => xmlDoubleQuote.length - 1
  | _ => 0

/-- The first loop: `length_increase` at its end. -/
def countSpecial (lengthIncrease : Nat) : List Char → Nat
  | [] => lengthIncrease
  | inCh :: rest => countSpecial (lengthIncrease + lengthIncreaseOf inCh) rest

/-- The size of the block for the encoded form. -/
def encodedSize (inStr : CString) : Nat := inStr.chars.length + countSpecial 0 inStr.chars + 1

/-- Copy an entity to `outCh`, and move `outCh` behind it. -/
def putEntity (newStr : Block) (outCh : Nat) (entity : List Char) : Read (Block × Nat) :=
  (newStr.strcpy outCh entity).map fun newStr => (newStr, outCh + entity.length)

/-- The `switch` of the second loop. -/
def putEncoded (newStr : Block) (outCh : Nat) : Char → Read (Block × Nat)
  | '&' => putEntity newStr outCh xmlAmpersand
  | '<' => putEntity newStr outCh xmlLessThan
  | '>' => putEntity newStr outCh xmlGreaterThan
  | '\'' => putEntity newStr outCh xmlSingleQuote
  | '"' => putEntity newStr outCh xmlDoubleQuote
  | c => (newStr.store outCh c).map fun newStr => (newStr, outCh + 1)

/-- The second loop. -/
def encodeInto : List Char → Block → Nat → Read (Block × Nat)
  | [], newStr, outCh => .value (newStr, outCh)
  | inCh :: rest, newStr, outCh =>
      (putEncoded newStr outCh inCh).bind fun (newStr, outCh) => encodeInto rest newStr outCh

/-- `xml_escape_string`: the block that is returned, and where its last NUL was written. -/
def escapeInMemory (inStr : CString) : Read (Block × Nat) :=
  (encodeInto inStr.chars (malloc (encodedSize inStr)) 0).bind fun (newStr, outCh) =>
    (newStr.store outCh nul).map fun newStr => (newStr, outCh)

/-! ## The two walks agree -/

/-- The encoded form. -/
def encodedForm (chars : List Char) : List Char := chars.flatMap xmlEscapeChar

/-- **The three `switch`es treat a character alike**: as one that has an entity, or as one that stands for itself. -/
theorem switches_agree (c : Char) :
    (∃ entity ∈ xmlEntities, xmlEscapeChar c = entity ∧ lengthIncreaseOf c + 1 = entity.length ∧
      ∀ newStr outCh, putEncoded newStr outCh c = putEntity newStr outCh entity) ∨
    (c ∉ ['&', '<', '>', '\'', '"'] ∧ xmlEscapeChar c = [c] ∧ lengthIncreaseOf c = 0 ∧
      ∀ newStr outCh, putEncoded newStr outCh c = (newStr.store outCh c).map fun newStr => (newStr, outCh + 1)) := by
  by_cases hspecial : c ∈ ['&', '<', '>', '\'', '"']
  · left
    simp only [List.mem_cons, List.not_mem_nil, or_false] at hspecial
    obtain rfl | rfl | rfl | rfl | rfl := hspecial
    · exact ⟨xmlAmpersand, by simp [xmlEntities], rfl, rfl, fun _ _ => rfl⟩
    · exact ⟨xmlLessThan, by simp [xmlEntities], rfl, rfl, fun _ _ => rfl⟩
    · exact ⟨xmlGreaterThan, by simp [xmlEntities], rfl, rfl, fun _ _ => rfl⟩
    · exact ⟨xmlSingleQuote, by simp [xmlEntities], rfl, rfl, fun _ _ => rfl⟩
    · exact ⟨xmlDoubleQuote, by simp [xmlEntities], rfl, rfl, fun _ _ => rfl⟩
  · refine .inr ⟨hspecial, ?_⟩
    simp only [List.mem_cons, List.not_mem_nil, or_false, not_or] at hspecial
    obtain ⟨hamp, hlt, hgt, hsingle, hdouble⟩ := hspecial
    exact ⟨xmlEscapeChar.eq_6 c hamp hlt hgt hsingle hdouble, lengthIncreaseOf.eq_6 c hamp hlt hgt hsingle hdouble,
      fun newStr outCh => putEncoded.eq_6 newStr outCh c hamp hlt hgt hsingle hdouble⟩

theorem length_xmlEscapeChar (c : Char) : (xmlEscapeChar c).length = lengthIncreaseOf c + 1 := by
  obtain ⟨entity, -, hchar, hlength, -⟩ | ⟨-, hchar, hlength, -⟩ := switches_agree c
  · rw [hchar, hlength]
  · rw [hchar, hlength]
    rfl

theorem countSpecial_eq (n : Nat) (chars : List Char) :
    countSpecial n chars + chars.length = n + (encodedForm chars).length := by
  induction chars generalizing n with
  | nil => rfl
  | cons c chars ih =>
      have hrest := ih (n + lengthIncreaseOf c)
      have hchar := length_xmlEscapeChar c
      simp only [encodedForm, countSpecial, List.length_cons, List.flatMap_cons, List.length_append] at hrest ⊢
      omega

/-- The block has the size of the encoded form with its NUL. -/
theorem encodedSize_eq (inStr : CString) : encodedSize inStr = (encodedForm inStr.chars).length + 1 := by
  have hcount := countSpecial_eq 0 inStr.chars
  unfold encodedSize
  omega

section

variable {newStr : Block} {written : List Char} {room : Nat}

theorem putEntity_spec {entity : List Char} (h : FilledTo newStr written (entity.length + (room + 1))) :
    ∃ newStr', putEntity newStr written.length entity = .value (newStr', (written ++ entity).length) ∧
      FilledTo newStr' (written ++ entity) (room + 1) := by
  obtain ⟨newStr', hcopy, hfilled⟩ := h.strcpy
  refine ⟨newStr', ?_, hfilled⟩
  rw [putEntity, hcopy, List.length_append]
  rfl

/-- What the second `switch` writes for one character. -/
theorem putEncoded_spec {c : Char} (h : FilledTo newStr written ((xmlEscapeChar c).length + (room + 1))) :
    ∃ newStr', putEncoded newStr written.length c = .value (newStr', (written ++ xmlEscapeChar c).length) ∧
      FilledTo newStr' (written ++ xmlEscapeChar c) (room + 1) := by
  obtain ⟨entity, -, hchar, -, hput⟩ | ⟨-, hchar, -, hput⟩ := switches_agree c
  · rw [hchar] at h ⊢
    rw [hput]
    exact putEntity_spec h
  · have hroom : [c].length + (room + 1) = room + 1 + 1 := by
      rw [List.length_singleton]
      omega
    rw [hchar, hroom] at h
    obtain ⟨newStr', hstore, hfilled⟩ := h.store c
    rw [← hchar] at hfilled
    refine ⟨newStr', ?_, hfilled⟩
    rw [hput, hstore, hchar, List.length_append, List.length_singleton]
    rfl

/-- **The second loop** writes the encoded form. -/
theorem encodeInto_spec {chars : List Char} (h : FilledTo newStr written ((encodedForm chars).length + 1)) :
    ∃ newStr', encodeInto chars newStr written.length = .value (newStr', (written ++ encodedForm chars).length) ∧
      FilledTo newStr' (written ++ encodedForm chars) 1 := by
  induction chars generalizing newStr written with
  | nil =>
      refine ⟨newStr, ?_, by simpa [encodedForm] using h⟩
      simp [encodeInto, encodedForm]
  | cons c chars ih =>
      have hform : encodedForm (c :: chars) = xmlEscapeChar c ++ encodedForm chars := List.flatMap_cons
      rw [hform, List.length_append, Nat.add_assoc] at h
      obtain ⟨newStr₁, hput, hfilled⟩ := putEncoded_spec h
      obtain ⟨newStr₂, hrest, hfilled'⟩ := ih hfilled
      rw [List.append_assoc, ← hform] at hrest hfilled'
      refine ⟨newStr₂, ?_, hfilled'⟩
      rw [encodeInto, hput]
      exact hrest

end

/-- **`xml_escape_string` writes the encoded form and its NUL**, and the block is full then. -/
theorem escapeInMemory_eq (inStr : CString) :
    escapeInMemory inStr =
      .value ((encodedForm inStr.chars ++ [nul]).map some, (encodedForm inStr.chars).length) := by
  have hmalloc := filledTo_malloc (encodedSize inStr)
  rw [encodedSize_eq] at hmalloc
  obtain ⟨newStr, hencode, hfilled⟩ := encodeInto_spec hmalloc
  rw [List.nil_append] at hencode hfilled
  obtain ⟨newStr', hstore, hfull⟩ := hfilled.store nul
  have hencode' : encodeInto inStr.chars (malloc (encodedSize inStr)) 0 =
      .value (newStr, (encodedForm inStr.chars).length) := by
    rw [encodedSize_eq]
    exact hencode
  rw [escapeInMemory, hencode', ← hfull.eq]
  show (newStr.store (encodedForm inStr.chars).length nul).map _ = _
  rw [hstore]
  rfl

/-! ## What is in the encoded form -/

/-- The function fills the block that it returns with `encoded` and a NUL. -/
def Encodes (inStr : CString) (encoded : List Char) : Prop :=
  escapeInMemory inStr = .value ((encoded ++ [nul]).map some, encoded.length)

/-- What the printing functions take for the encoded form is what is written. -/
theorem encodes_xmlEscapeString (inStr : CString) :
    Encodes inStr (xmlEscapeString (String.ofList inStr.chars)).toList := by
  have hform : (xmlEscapeString (String.ofList inStr.chars)).toList = encodedForm inStr.chars := by
    simp only [xmlEscapeString, String.toList_ofList, encodedForm]
  rw [hform]
  exact escapeInMemory_eq inStr

/-- A string has one encoded form. -/
theorem Encodes.eq {inStr : CString} {encoded : List Char} (h : Encodes inStr encoded) :
    encoded = (xmlEscapeString (String.ofList inStr.chars)).toList := by
  have hvalue := h.symm.trans (encodes_xmlEscapeString inStr)
  have hblock : (encoded ++ [nul]).map some =
      ((xmlEscapeString (String.ofList inStr.chars)).toList ++ [nul]).map some := congrArg Prod.fst (Read.value.inj hvalue)
  exact List.append_cancel_right ((List.map_injective_iff.mpr fun _ _ => Option.some.inj) hblock)

theorem decodeEntities_of_encodes {inStr : CString} {encoded : List Char} (h : Encodes inStr encoded) :
    decodeEntities encoded = inStr.chars := by
  rw [h.eq, decodeEntities_xmlEscapeString, String.toList_ofList]

/-- An entity is `&` with lower-case letters and a semicolon. -/
theorem entity_body {entity : List Char} (h : entity ∈ xmlEntities) :
    ∃ body, entity = '&' :: body ∧ body.all (fun c => c.isLower || c = ';') = true := by
  simp only [xmlEntities, List.mem_cons, List.not_mem_nil, or_false] at h
  obtain rfl | rfl | rfl | rfl | rfl := h
  all_goals exact ⟨_, rfl, by decide⟩

/-- No special character and no NUL is in the rest of an entity. -/
theorem notMem_entity_body {body : List Char} (h : body.all (fun c => c.isLower || c = ';') = true) {c : Char}
    (hc : c ∈ [nul, '&', '<', '>', '\'', '"']) : c ∉ body := by
  intro hmem
  have hletter := List.all_eq_true.mp h c hmem
  simp only [List.mem_cons, List.not_mem_nil, or_false] at hc
  obtain rfl | rfl | rfl | rfl | rfl | rfl := hc
  all_goals exact absurd hletter (by decide)

/-- The characters that do not occur in the encoded form. -/
theorem notMem_encodedForm {chars : List Char} (hnul : nul ∉ chars) {c : Char} (hc : c ∈ [nul, '<', '>', '\'', '"']) :
    c ∉ encodedForm chars := by
  intro hmem
  obtain ⟨x, hx, hcx⟩ := List.mem_flatMap.mp hmem
  obtain ⟨entity, hentity, hchar, -⟩ | ⟨hplain, hchar, -⟩ := switches_agree x
  · obtain ⟨body, rfl, hbody⟩ := entity_body hentity
    rw [hchar, List.mem_cons] at hcx
    obtain rfl | hcx := hcx
    · exact absurd hc (by decide)
    · refine notMem_entity_body hbody ?_ hcx
      simp only [List.mem_cons] at hc ⊢
      tauto
  · rw [hchar, List.mem_singleton] at hcx
    subst hcx
    obtain rfl | hc := List.mem_cons.mp hc
    · exact hnul hx
    · exact hplain (List.mem_cons_of_mem _ hc)

/-- A text without `&` does not hold the beginning of an entity. -/
theorem suffix_of_notMem {body form rest : List Char} (hbody : '&' ∉ body) (h : '&' :: rest <:+ body ++ form) :
    '&' :: rest <:+ form := by
  induction body with
  | nil => exact h
  | cons c body ih =>
      rw [List.mem_cons, not_or] at hbody
      rw [List.cons_append, List.suffix_cons_iff] at h
      obtain heq | hrest := h
      · exact absurd (List.cons.inj heq).1 hbody.1
      · exact ih hbody.2 hrest

/-- **Every `&` in the encoded form begins an entity.** -/
theorem ampersand_begins_entity {chars rest : List Char} (h : '&' :: rest <:+ encodedForm chars) :
    ∃ entity ∈ xmlEntities, entity <+: '&' :: rest := by
  induction chars with
  | nil => exact absurd (List.suffix_nil.mp h) nofun
  | cons c chars ih =>
      have hform : encodedForm (c :: chars) = xmlEscapeChar c ++ encodedForm chars := List.flatMap_cons
      rw [hform] at h
      obtain ⟨entity, hentity, hchar, -⟩ | ⟨hplain, hchar, -⟩ := switches_agree c
      · obtain ⟨body, rfl, hbody⟩ := entity_body hentity
        rw [hchar, List.cons_append, List.suffix_cons_iff] at h
        obtain heq | hlater := h
        · exact ⟨_, hentity, encodedForm chars, heq.symm⟩
        · exact ih (suffix_of_notMem (notMem_entity_body hbody (by simp)) hlater)
      · rw [hchar] at h
        have hamp : '&' ∉ [c] := fun hmem => hplain (List.mem_singleton.mp hmem ▸ by simp)
        exact ih (suffix_of_notMem hamp h)

/-- **`xml_escape_string` is exact and invertible.** Every string has an encoded form, which with its NUL fills the block
that was allocated; there is no raw special character in it, every `&` begins an entity, and decoding the entities gives
back the string. No two strings have the same one. -/
theorem encodes_exactly :
    (∀ inStr : CString, ∃ encoded, Encodes inStr encoded ∧ (encoded ++ [nul]).length = encodedSize inStr ∧
      (∀ c ∈ [nul, '<', '>', '\'', '"'], c ∉ encoded) ∧
      (∀ rest, '&' :: rest <:+ encoded → ∃ entity ∈ xmlEntities, entity <+: '&' :: rest) ∧
      decodeEntities encoded = inStr.chars) ∧
    ∀ (inStr inStr' : CString) (encoded : List Char), Encodes inStr encoded → Encodes inStr' encoded →
      inStr = inStr' := by
  refine ⟨fun inStr => ?_, fun inStr inStr' encoded h h' => ?_⟩
  · have hencodes : Encodes inStr (encodedForm inStr.chars) := escapeInMemory_eq inStr
    refine ⟨encodedForm inStr.chars, hencodes, ?_, fun c hc => notMem_encodedForm inStr.noNul hc,
      fun rest => ampersand_begins_entity, decodeEntities_of_encodes hencodes⟩
    rw [encodedSize_eq, List.length_append, List.length_singleton]
  · have hchars := (decodeEntities_of_encodes h).symm.trans (decodeEntities_of_encodes h')
    cases inStr
    cases inStr'
    cases hchars
    rfl

/-- The ampersand of an entity in the text is escaped as well. -/
example : Encodes ⟨['a', '<', '&', 'l', 't', ';'], by decide⟩
    ['a', '&', 'l', 't', ';', '&', 'a', 'm', 'p', ';', 'l', 't', ';'] := rfl

end GccXml
