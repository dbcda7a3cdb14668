import GccXml.Lib.XmlReader

namespace GccXml

/-! # `Lib.XmlDocument` — what a processor reads of a document

A processor goes through a document character by character and reports events: an element starts, with the values of
its attributes, or an element ends. From the events follows the tree of the elements. Where the document does not match
the grammar, there is no result: a tag that is not closed by its own end tag, an attribute that is given twice, text
between the elements.

The reader knows nothing of any printer. It is a machine with one state for each place in a tag, and reading a
character leads to the next state or is an error; the value of an attribute is normalised when it is complete, as the
standard says. A second function builds the tree, from the last event to the first.

What makes it usable is `readDocument_spells`. `Spells` relates content to a text: the text is made of elements
whose attribute values may be written in any way that the grammar admits, and the theorem says that the reader reads it
as this content. The lemmas before it scan one piece each, a name, a value, an attribute, a tag, with any text behind
it, so that they can be put together in the order of the text. -/

namespace XmlGrammar

/-! ## Trees and events -/

/-- The elements that follow each other in an element: the tag, the attributes with their values and the content of the
    first one, and those after it. -/
inductive Forest where
  | nil
  | cons (tag : List Char) (attrs : List (List Char × List Char)) (content rest : Forest)

/-- What a processor reports. -/
inductive Event where
  | start (tag : List Char) (attrs : List (List Char × List Char))
  | stop (tag : List Char)

/-- The events of elements. -/
def Forest.events : Forest → List Event
  | .nil => []
  | .cons tag attrs content rest => .start tag attrs :: (content.events ++ .stop tag :: rest.events)

def Forest.append : Forest → Forest → Forest
  | .nil, g => g
  | .cons tag attrs content rest, g => .cons tag attrs content (rest.append g)

theorem Forest.append_nil (f : Forest) : f.append .nil = f := by
  induction f with
  | nil => rfl
  | cons tag attrs content rest _ ih => rw [Forest.append, ih]

/-- The elements from some event on: those before an end tag of an outer element, and for each outer element its tag and
    the elements behind it. -/
def build : List Event → Option (List (List Char × Forest) × Forest)
  | [] => some ([], .nil)
  | .stop tag :: events => (build events).map fun (outer, f) => ((tag, f) :: outer, .nil)
  | .start tag attrs :: events =>
      match build events with
      | some ((tag', rest) :: outer, content) => if tag = tag' then some (outer, .cons tag attrs content rest) else none
      | _ => none

/-- The elements behind which no end tag is left over. -/
def tree (events : List Event) : Option Forest :=
  match build events with
  | some ([], f) => some f
  | _ => none

/-- Elements stand before what follows them. -/
theorem build_events (f : Forest) (more : List Event) :
    build (f.events ++ more) = (build more).map fun (outer, g) => (outer, f.append g) := by
  induction f generalizing more with
  | nil =>
      show build more = (build more).map id
      rw [Option.map_id, id_eq]
  | cons tag attrs content rest hcontent hrest =>
      have hstop : build (.stop tag :: (rest.events ++ more)) =
          (build more).map fun (outer, g) => ((tag, rest.append g) :: outer, .nil) := by
        rw [build, hrest, Option.map_map]
        rfl
      show build (.start tag attrs :: (content.events ++ .stop tag :: rest.events ++ more)) = _
      rw [List.append_assoc, List.cons_append, build, hcontent, hstop]
      cases build more with
      | none => rfl
      | some built =>
          show (if tag = tag then some (built.1, Forest.cons tag attrs (content.append .nil) (rest.append built.2)) else none) = _
          rw [if_pos rfl, Forest.append_nil]
          rfl

/-- **The events of a tree give it back.** -/
theorem tree_events (f : Forest) : tree f.events = some f := by
  have hbuild := build_events f []
  rw [List.append_nil] at hbuild
  rw [tree, hbuild]
  exact congrArg some f.append_nil

/-! ## Scanning -/

/-- What was read of the tag at which a processor is. -/
inductive ScanState where
  /-- Between tags. -/
  | content
  /-- Behind a `<`. -/
  | markup
  /-- In the name of a start tag. -/
  | startName (tag : List Char)
  /-- Behind white space in a start tag. -/
  | blank (tag : List Char) (attrs : List (List Char × List Char))
  | attrName (tag : List Char) (attrs : List (List Char × List Char)) (name : List Char)
  /-- Behind a `=`. -/
  | equals (tag : List Char) (attrs : List (List Char × List Char)) (name : List Char)
  | value (tag : List Char) (attrs : List (List Char × List Char)) (name text : List Char)
  /-- Behind the value of an attribute. -/
  | closed (tag : List Char) (attrs : List (List Char × List Char))
  /-- Behind the `/` of an empty element. -/
  | slash (tag : List Char) (attrs : List (List Char × List Char))
  | endName (tag : List Char)

/-- A character of a start tag that does not belong to a name. -/
def scanTag (tag : List Char) (attrs : List (List Char × List Char)) (c : Char) : Option (ScanState × List Event) :=
  if isSpace c then some (.blank tag attrs, [])
  else if c = '/' then some (.slash tag attrs, [])
  else if c = '>' then some (.content, [.start tag attrs])
  else none

/-- Read a character. -/
def scanChar (c : Char) : ScanState → Option (ScanState × List Event)
  | .content => if isSpace c then some (.content, []) else if c = '<' then some (.markup, []) else none
  | .markup =>
      if c = '/' then some (.endName [], [])
      else if isNameStartChar c then some (.startName [c], [])
      else none
  | .startName tag => if isNameChar c then some (.startName (tag ++ [c]), []) else scanTag tag [] c
  | .blank tag attrs => if isNameStartChar c then some (.attrName tag attrs [c], []) else scanTag tag attrs c
  | .attrName tag attrs name =>
      if isNameChar c then some (.attrName tag attrs (name ++ [c]), [])
      else if c = '=' then some (.equals tag attrs name, [])
      else none
  | .equals tag attrs name => if c = '"' then some (.value tag attrs name [], []) else none
  | .value tag attrs name text =>
      if c ≠ '"' then some (.value tag attrs name (text ++ [c]), [])
      else if ∃ attr ∈ attrs, attr.1 = name then none
      else (readAttValue text).map fun value => (.closed tag (attrs ++ [(name, value)]), [])
  | .closed tag attrs => scanTag tag attrs c
  | .slash tag attrs => if c = '>' then some (.content, [.start tag attrs, .stop tag]) else none
  | .endName tag =>
      if isNameChar c then some (.endName (tag ++ [c]), [])
      else if c = '>' then some (.content, [.stop tag])
      else none

/-- The events of a text that ends between tags. -/
def scan : ScanState → List Char → Option (List Event)
  | .content, [] => some []
  | _, [] => none
  | state, c :: cs => (scanChar c state).bind fun (state', events) => (scan state' cs).map (events ++ ·)

/-- **What a processor passes on** of a document: its root element, or nothing for an error. -/
def readDocument (text : List Char) : Option Forest :=
  if "<?xml version=\"1.0\"?>".toList.isPrefixOf text then
    match (scan .content (text.drop "<?xml version=\"1.0\"?>".toList.length)).bind tree with
    | some (.cons tag attrs content .nil) => some (.cons tag attrs content .nil)
    | _ => none
  else none

/-! ## Attribute values -/

/-- What is passed on for the text of an attribute. -/
def attValue (text : List Char) : List Char := (readAttValue text).getD []

/-- The attributes with their values. -/
def attValues (attrs : List (List Char × List Char)) : List (List Char × List Char) :=
  attrs.map fun a => (a.1, attValue a.2)

theorem AttText.quote_notMem {s : List Char} (h : AttText s) : '"' ∉ s := by
  have hname : ∀ name ∈ predefinedEntities, '"' ∉ name := by decide
  induction h with
  | nil => exact List.not_mem_nil
  | @char c cs hc _ ih =>
      rw [List.mem_cons, not_or]
      refine ⟨?_, ih⟩
      rintro rfl
      cases hc
  | @entity name cs hmem _ ih =>
      intro hquote
      simp only [List.mem_append, List.mem_cons] at hquote
      obtain (hquote | hquote) | hquote | hquote := hquote
      · cases hquote
      · exact hname name hmem hquote
      · cases hquote
      · exact ih hquote

/-- Line breaks are no part of references. -/
theorem AttText.endOfLine {s : List Char} (h : AttText s) : AttText (XmlGrammar.endOfLine s) := by
  have hname : ∀ name ∈ predefinedEntities, '\r' ∉ name := by decide
  induction h with
  | nil => exact .nil
  | @char c cs hc _ ih =>
      by_cases hreturn : c = '\r'
      · subst hreturn
        cases cs with
        | nil => exact .char (by decide) .nil
        | cons d ds =>
            by_cases hnewline : d = '\n'
            · -- the two are one line break
              subst hnewline
              exact ih
            · rw [XmlGrammar.endOfLine.eq_3 _ fun _ heq => hnewline (List.cons.inj heq).1]
              exact .char (by decide) ih
      · have hother : XmlGrammar.endOfLine (c :: cs) = c :: XmlGrammar.endOfLine cs := by
          have happend := @endOfLine_append [c] (by simpa using fun h => hreturn h.symm) cs
          exact happend
        rw [hother]
        exact .char hc ih
  | @entity name cs hmem _ ih =>
      have hnone : '\r' ∉ '&' :: name ++ [';'] := by
        intro hreturn
        simp only [List.mem_append, List.mem_cons, List.not_mem_nil, or_false] at hreturn
        obtain (hreturn | hreturn) | hreturn := hreturn
        · cases hreturn
        · exact hname name hmem hreturn
        · cases hreturn
      have happend := endOfLine_append hnone cs
      rw [List.append_assoc] at happend
      have hentity := @AttText.entity name (XmlGrammar.endOfLine cs) hmem ih
      show AttText (XmlGrammar.endOfLine ('&' :: name ++ ([';'] ++ cs)))
      rw [← List.append_assoc, endOfLine_append hnone cs, List.append_assoc]
      exact hentity

/-- The entities that can be referred to stand for characters. -/
theorem exists_entityChar {name : List Char} (h : name ∈ predefinedEntities) : ∃ c, (name, c) ∈ entityChars := by
  simp only [predefinedEntities, List.mem_cons, List.not_mem_nil, or_false] at h
  obtain rfl | rfl | rfl | rfl | rfl := h
  · exact ⟨'&', by decide⟩
  · exact ⟨'<', by decide⟩
  · exact ⟨'>', by decide⟩
  · exact ⟨'\'', by decide⟩
  · exact ⟨'"', by decide⟩

theorem AttText.exists_attChars {s : List Char} (h : AttText s) : ∃ value, attChars none s = some value := by
  induction h with
  | nil => exact ⟨[], rfl⟩
  | char hc _ ih =>
      obtain ⟨value, hvalue⟩ := ih
      exact ⟨_, by rw [attChars_plain hc, hvalue, Option.map_some]⟩
  | entity hmem _ ih =>
      obtain ⟨value, hvalue⟩ := ih
      obtain ⟨c, hc⟩ := exists_entityChar hmem
      exact ⟨_, by rw [attChars_entity hc, hvalue, Option.map_some]⟩

/-- A processor accepts every attribute value of the grammar. -/
theorem AttText.readAttValue {s : List Char} (h : AttText s) : readAttValue s = some (attValue s) := by
  obtain ⟨value, hvalue⟩ := h.endOfLine.exists_attChars
  have hread : XmlGrammar.readAttValue s = some value := hvalue
  rw [attValue, hread, Option.getD_some]

/-! ## Scanning tags -/

theorem isNameChar_of_isName {name : List Char} (h : isName name = true) : ∀ c ∈ name, isNameChar c = true := by
  cases name with
  | nil => cases h
  | cons c cs =>
      rw [isName, Bool.and_eq_true] at h
      intro d hd
      obtain rfl | hd := List.mem_cons.mp hd
      · rw [isNameChar, h.1]
        rfl
      · exact List.all_eq_true.mp h.2 d hd

theorem scan_cons {state state' : ScanState} {c : Char} {events : List Event}
    (h : scanChar c state = some (state', events)) (cs : List Char) :
    scan state (c :: cs) = (scan state' cs).map (events ++ ·) := by
  rw [scan, h, Option.bind_some]

/-- A character that reports nothing. -/
theorem scan_quiet {state state' : ScanState} {c : Char} (h : scanChar c state = some (state', [])) (cs : List Char) :
    scan state (c :: cs) = scan state' cs := by
  rw [scan_cons h]
  exact Option.map_id'

/-- What is read up to the last of some characters is read of all of them. -/
theorem scan_run {state : List Char → ScanState} {p : Char → Prop}
    (hstate : ∀ read c, p c → scanChar c (state read) = some (state (read ++ [c]), [])) {text : List Char}
    (htext : ∀ c ∈ text, p c) (read cs : List Char) : scan (state read) (text ++ cs) = scan (state (read ++ text)) cs := by
  induction text generalizing read with
  | nil => rw [List.nil_append, List.append_nil]
  | cons c text ih =>
      have hrest := ih (fun d hd => htext d (List.mem_cons_of_mem _ hd)) (read ++ [c])
      rw [List.append_assoc, List.singleton_append] at hrest
      rw [List.cons_append, scan_quiet (hstate read c (htext c List.mem_cons_self)), hrest]

theorem scan_space {c : Char} (hc : isSpace c = true) (cs : List Char) : scan .content (c :: cs) = scan .content cs :=
  scan_quiet (by rw [scanChar, if_pos hc]) cs

/-- The characters that may follow a name in a tag. -/
theorem not_isNameChar {c : Char} (h : c = ' ' ∨ c = '/' ∨ c = '>' ∨ c = '=') : isNameChar c = false := by
  obtain rfl | rfl | rfl | rfl := h
  all_goals decide

/-- Behind its name a start tag goes on as behind an attribute. -/
theorem scan_startName {c : Char} (hc : c = ' ' ∨ c = '/' ∨ c = '>' ∨ c = '=') (tag cs : List Char) :
    scan (.startName tag) (c :: cs) = scan (.closed tag []) (c :: cs) := by
  have hchar : scanChar c (.startName tag) = scanChar c (.closed tag []) := by
    rw [scanChar, not_isNameChar hc, if_neg Bool.false_ne_true, scanChar]
  rw [scan, scan, hchar]

/-- **An attribute** is read with its value. -/
theorem scan_attrText {a : List Char × List Char} (hname : isName a.1 = true) (hvalue : AttText a.2)
    {attrs : List (List Char × List Char)} (hnew : ¬ ∃ attr ∈ attrs, attr.1 = a.1) (tag cs : List Char) :
    scan (.closed tag attrs) (attrText a ++ cs) = scan (.closed tag (attrs ++ [(a.1, attValue a.2)])) cs := by
  obtain ⟨name, text⟩ := a
  have hquote : ∀ c ∈ text, c ≠ '"' := by
    rintro c hc rfl
    exact hvalue.quote_notMem hc
  have hend : scanChar '"' (.value tag attrs name text) = some (.closed tag (attrs ++ [(name, attValue text)]), []) := by
    rw [scanChar, if_neg (fun h => h rfl), if_neg hnew, hvalue.readAttValue, Option.map_some]
  have hblank : scanChar ' ' (.closed tag attrs) = some (.blank tag attrs, []) := rfl
  have htext : attrText (name, text) ++ cs = ' ' :: (name ++ '=' :: '"' :: (text ++ '"' :: cs)) := by
    simp [attrText]
  rw [htext, scan_quiet hblank]
  cases name with
  | nil => cases hname
  | cons c cs' =>
      have hstart : isNameStartChar c = true := by
        rw [isName, Bool.and_eq_true] at hname
        exact hname.1
      have hfirst : scanChar c (.blank tag attrs) = some (.attrName tag attrs [c], []) := by rw [scanChar, if_pos hstart]
      have hnames := @scan_run (.attrName tag attrs) (isNameChar · = true) (fun read c hc => by rw [scanChar, if_pos hc]) cs'
        (fun d hd => isNameChar_of_isName hname d (List.mem_cons_of_mem _ hd)) [c]
      have hequals : scanChar '=' (.attrName tag attrs (c :: cs')) = some (.equals tag attrs (c :: cs'), []) := rfl
      have hopen : scanChar '"' (.equals tag attrs (c :: cs')) = some (.value tag attrs (c :: cs') [], []) := rfl
      have hvalues := @scan_run (.value tag attrs (c :: cs')) (· ≠ '"') (fun read c hc => by rw [scanChar, if_pos hc]) text
        hquote []
      rw [List.cons_append, scan_quiet hfirst, hnames, List.singleton_append, scan_quiet hequals, scan_quiet hopen, hvalues,
        List.nil_append, scan_quiet hend]

/-- The attributes of a tag are read with their values. -/
theorem scan_attrTexts {attrs : List (List Char × List Char)} (hnames : ∀ a ∈ attrs, isName a.1 = true)
    (hvalues : ∀ a ∈ attrs, AttText a.2) {read : List (List Char × List Char)}
    (hnodup : (read.map (·.1) ++ attrs.map (·.1)).Nodup) (tag cs : List Char) :
    scan (.closed tag read) (attrs.flatMap attrText ++ cs) = scan (.closed tag (read ++ attValues attrs)) cs := by
  induction attrs generalizing read with
  | nil => rw [List.flatMap_nil, List.nil_append, attValues, List.map_nil, List.append_nil]
  | cons a attrs ih =>
      have hnew : ¬ ∃ attr ∈ read, attr.1 = a.1 := by
        rintro ⟨attr, hattr, heq⟩
        exact (List.nodup_append.mp hnodup).2.2 _ (List.mem_map_of_mem hattr) _ (List.mem_map_of_mem List.mem_cons_self) heq
      have hnodup' : ((read ++ [(a.1, attValue a.2)]).map (·.1) ++ attrs.map (·.1)).Nodup := by
        rw [List.map_append, List.append_assoc]
        exact hnodup
      rw [List.flatMap_cons, List.append_assoc,
        scan_attrText (hnames a List.mem_cons_self) (hvalues a List.mem_cons_self) hnew,
        ih (fun b hb => hnames b (List.mem_cons_of_mem _ hb)) (fun b hb => hvalues b (List.mem_cons_of_mem _ hb)) hnodup']
      rw [List.append_assoc]
      rfl

/-- **A start tag** is read with the values of its attributes. -/
theorem scan_openTag {tag : List Char} {attrs : List (List Char × List Char)} (htag : isName tag = true)
    (hattrs : WellFormedAttrs attrs) {c : Char} (hc : c = '/' ∨ c = '>') (cs : List Char) :
    scan .content (openTag tag attrs ++ c :: cs) = scan (.closed tag (attValues attrs)) (c :: cs) := by
  have hnodup : (([] : List (List Char × List Char)).map (·.1) ++ attrs.map (·.1)).Nodup := hattrs.nodup
  have hrest : scan (.startName tag) (attrs.flatMap attrText ++ c :: cs) = scan (.closed tag (attValues attrs)) (c :: cs) := by
    rw [← List.nil_append (attValues attrs), ← scan_attrTexts hattrs.names hattrs.values hnodup]
    cases attrs with
    | nil => exact scan_startName (by tauto) tag cs
    | cons a attrs => exact scan_startName (.inl rfl) tag _
  have hmarkup : scanChar '<' .content = some (.markup, []) := rfl
  cases tag with
  | nil => cases htag
  | cons t ts =>
      have hstart : isNameStartChar t = true := by
        rw [isName, Bool.and_eq_true] at htag
        exact htag.1
      have hslash : t ≠ '/' := by
        rintro rfl
        cases hstart
      have hfirst : scanChar t .markup = some (.startName [t], []) := by rw [scanChar, if_neg hslash, if_pos hstart]
      have hnames := @scan_run .startName (isNameChar · = true) (fun read c hc => by rw [scanChar, if_pos hc]) ts
        (fun d hd => isNameChar_of_isName htag d (List.mem_cons_of_mem _ hd)) [t]
      have htext : openTag (t :: ts) attrs ++ c :: cs = '<' :: t :: (ts ++ (attrs.flatMap attrText ++ c :: cs)) := by
        simp [openTag]
      rw [htext, scan_quiet hmarkup, scan_quiet hfirst, hnames, List.singleton_append, hrest]

/-- An end tag. -/
theorem scan_endTag {tag : List Char} (htag : isName tag = true) (cs : List Char) :
    scan .content (endTag tag ++ cs) = (scan .content cs).map (.stop tag :: ·) := by
  have hmarkup : scanChar '<' .content = some (.markup, []) := rfl
  have hslash : scanChar '/' .markup = some (.endName [], []) := rfl
  have hend : scanChar '>' (.endName tag) = some (.content, [.stop tag]) := rfl
  have hnames := @scan_run .endName (isNameChar · = true) (fun read c hc => by rw [scanChar, if_pos hc]) tag
    (isNameChar_of_isName htag) []
  have htext : endTag tag ++ cs = '<' :: '/' :: (tag ++ '>' :: cs) := by simp [endTag]
  rw [htext, scan_quiet hmarkup, scan_quiet hslash, hnames, List.nil_append, scan_cons hend]
  rfl

/-! ## Documents -/

/-- The text of elements: tags, the elements in them, and white space. -/
inductive Spells : Forest → List Char → Prop
  | nil : Spells .nil []
  | space {f : Forest} {c : Char} {cs : List Char} : isSpace c = true → Spells f cs → Spells f (c :: cs)
  | empty {tag cs : List Char} {attrs : List (List Char × List Char)} {rest : Forest} : isName tag = true →
      WellFormedAttrs attrs → Spells rest cs →
      Spells (.cons tag (attValues attrs) .nil rest) (openTag tag attrs ++ '/' :: '>' :: cs)
  | nested {tag inner cs : List Char} {attrs : List (List Char × List Char)} {content rest : Forest} :
      isName tag = true → WellFormedAttrs attrs → Spells content inner → Spells rest cs →
      Spells (.cons tag (attValues attrs) content rest) (openTag tag attrs ++ '>' :: (inner ++ (endTag tag ++ cs)))

namespace Spells

theorem spaces {f : Forest} {s cs : List Char} (hs : ∀ c ∈ s, isSpace c = true) (h : Spells f cs) :
    Spells f (s ++ cs) := by
  induction s with
  | nil => exact h
  | cons c s ih => exact .space (hs c List.mem_cons_self) (ih fun d hd => hs d (List.mem_cons_of_mem _ hd))

/-- The text of elements is read as their events. -/
theorem scan {f : Forest} {cs : List Char} (h : Spells f cs) (more : List Char) :
    XmlGrammar.scan .content (cs ++ more) = (XmlGrammar.scan .content more).map (f.events ++ ·) := by
  induction h generalizing more with
  | nil => exact Option.map_id'.symm
  | space hc _ ih => rw [List.cons_append, scan_space hc, ih]
  | @empty tag cs attrs rest htag hattrs _ ih =>
      have hslash : scanChar '/' (.closed tag (attValues attrs)) = some (.slash tag (attValues attrs), []) := rfl
      have hend : scanChar '>' (.slash tag (attValues attrs)) =
          some (.content, [.start tag (attValues attrs), .stop tag]) := rfl
      rw [List.append_assoc, List.cons_append, List.cons_append, scan_openTag htag hattrs (.inl rfl), scan_quiet hslash,
        scan_cons hend, ih, Option.map_map]
      rfl
  | @nested tag inner cs attrs content rest htag hattrs _ _ ihcontent ihrest =>
      have hend : scanChar '>' (.closed tag (attValues attrs)) = some (.content, [.start tag (attValues attrs)]) := rfl
      have htext : openTag tag attrs ++ '>' :: (inner ++ (endTag tag ++ cs)) ++ more =
          openTag tag attrs ++ '>' :: (inner ++ (endTag tag ++ (cs ++ more))) := by simp
      rw [htext, scan_openTag htag hattrs (.inr rfl), scan_cons hend, ihcontent, scan_endTag htag, ihrest, Option.map_map,
        Option.map_map, Option.map_map]
      refine congrArg (Option.map · _) (funext fun events => ?_)
      simp [Forest.events]

end Spells

/-- **A processor reads the root element of a document**, with all that is in it. -/
theorem readDocument_spells {tag text : List Char} {attrs : List (List Char × List Char)} {content : Forest}
    (h : Spells (.cons tag attrs content .nil) text) :
    readDocument ("<?xml version=\"1.0\"?>".toList ++ text) = some (.cons tag attrs content .nil) := by
  have hscan := h.scan []
  rw [List.append_nil] at hscan
  have hevents : scan .content text = some (Forest.cons tag attrs content .nil).events := by
    rw [hscan]
    exact congrArg some (List.append_nil _)
  rw [readDocument, if_pos (List.isPrefixOf_iff_prefix.mpr (List.prefix_append _ _)), List.drop_left, hevents,
    Option.bind_some, tree_events]

/-! ## Elements and ids -/

/-- An element as it is read. -/
structure ReadElement where
  tag : List Char
  attrs : List (List Char × List Char)
  content : Forest

/-- Elements after each other. -/
def Forest.ofElements : List ReadElement → Forest
  | [] => .nil
  | e :: es => .cons e.tag e.attrs e.content (.ofElements es)

/-- The value of an attribute. -/
def ReadElement.value (e : ReadElement) (name : List Char) : Option (List Char) := e.attrs.lookup name

/-- The elements with an id. -/
def withId (es : List ReadElement) (id : List Char) : List ReadElement :=
  es.filter fun e => e.value "id".toList = some id

end XmlGrammar

end GccXml
