import GccXml.Xml.Output

namespace GccXml

/-! # `Xml.Attributes` — what the printing functions request and write

The log of a printing function is a list of effects, so what it requests and what it writes can be read off from the
tree. Each function of `Xml.Print` and each block of attributes in `Xml.Output` gets its requests and its attributes
here; the modules on the properties of the document use these and never unfold a printing function.

There are three readings of a log: the nodes it requests (`requestsOf`), the fragments it writes (`fragsOf`),
and, where the fragments are those of attributes, their names and values (`attrsOf`), with the references in them
(`refsOf`). All of them distribute over sequences and conditionals, and the lemmas that say so are simp lemmas, so that
the reading of a function is computed from those of its parts.

The functions are ordered as in the source: first those that print an attribute without a reference, then those with
one, then the lists of members, befriending classes, bases and overridden methods, which are loops. -/

section
variable {Node : Type}

/-! ## Requests, fragments, attributes -/

@[simp] theorem elim_nil_nil {α β : Type} (o : Option α) : o.elim ([] : List β) (fun _ => []) = [] := by
  cases o <;> rfl

/-- The request that an effect is, if it is one. -/
def Action.request? : Action Node → Option (Node × Bool)
  | .addNode n c => some (n, c)
  | _ => none

/-- The fragment that an effect writes, if it writes one. -/
def Action.frag? : Action Node → Option (SymFrag Node)
  | .emit frag => some frag
  | _ => none

/-- The attribute that a fragment is, if it is one. -/
def Frag.attr? {ι φ : Type} : Frag Node ι φ → Option (String × List (Piece Node ι φ))
  | .attr name value => some (name, value)
  | _ => none

/-- An attribute as a fragment. -/
def Frag.ofAttr {ι φ : Type} (a : String × List (Piece Node ι φ)) : Frag Node ι φ := .attr a.1 a.2

section
variable {α β : Type}

/-- The requests that a printing function issues, in order. -/
def requestsOf (p : Print Node α) : List (Node × Bool) := p.log.filterMap Action.request?

/-- The fragments that a printing function writes, in order. -/
def fragsOf (p : Print Node α) : List (SymFrag Node) := p.log.filterMap Action.frag?

/-- The attributes that a printing function writes, in order. -/
def attrsOf (p : Print Node α) : List (String × List (SymPiece Node)) := (fragsOf p).filterMap Frag.attr?

@[simp] theorem requestsOf_pure (a : α) : requestsOf (pure a : Print Node α) = [] := rfl
@[simp] theorem requestsOf_bind (p : Print Node α) (f : α → Print Node β) :
    requestsOf (p >>= f) = requestsOf p ++ requestsOf (f p.value) := by simp [requestsOf]
@[simp] theorem requestsOf_discard (p : Print Node α) : requestsOf (discard p) = requestsOf p := by
  simp [requestsOf]
@[simp] theorem requestsOf_emit (frag : SymFrag Node) : requestsOf (emit frag) = [] := rfl
@[simp] theorem requestsOf_writeAttr (name : String) (value : List (SymPiece Node)) :
    requestsOf (writeAttr name value) = [] := rfl
@[simp] theorem requestsOf_xmlQueueFile (name : String) :
    requestsOf (xmlQueueFile name : Print Node String) = [] := rfl
@[simp] theorem requestsOf_when (p : Prop) [Decidable p] (x : Print Node Unit) :
    requestsOf (Trace.when p x) = if p then requestsOf x else [] := by
  unfold Trace.when; split <;> rfl
@[simp] theorem requestsOf_whenSome (o : Option α) (f : α → Print Node Unit) :
    requestsOf (Trace.whenSome o f) = o.elim [] fun a => requestsOf (f a) := by cases o <;> rfl
@[simp] theorem requestsOf_each (xs : List α) (f : α → Print Node Unit) :
    requestsOf (Trace.each xs f) = xs.flatMap fun a => requestsOf (f a) := by
  simp only [requestsOf, Trace.log_each, List.filterMap_flatMap]
@[simp] theorem requestsOf_collect (xs : List α) (f : α → Print Node β) :
    requestsOf (Trace.collect xs f) = xs.flatMap fun a => requestsOf (f a) := by
  simp only [requestsOf, Trace.log_collect, List.filterMap_flatMap]

@[simp] theorem attrsOf_pure (a : α) : attrsOf (pure a : Print Node α) = [] := rfl
@[simp] theorem fragsOf_pure (a : α) : fragsOf (pure a : Print Node α) = [] := rfl
@[simp] theorem fragsOf_bind (p : Print Node α) (f : α → Print Node β) :
    fragsOf (p >>= f) = fragsOf p ++ fragsOf (f p.value) := by simp [fragsOf]
@[simp] theorem fragsOf_discard (p : Print Node α) : fragsOf (discard p) = fragsOf p := by simp [fragsOf]
@[simp] theorem fragsOf_emit (frag : SymFrag Node) : fragsOf (emit frag) = [frag] := rfl
@[simp] theorem fragsOf_writeAttr (name : String) (value : List (SymPiece Node)) :
    fragsOf (writeAttr name value) = [.attr name value] := rfl
@[simp] theorem fragsOf_xmlQueueFile (name : String) :
    fragsOf (xmlQueueFile name : Print Node String) = [] := rfl
@[simp] theorem fragsOf_when (p : Prop) [Decidable p] (x : Print Node Unit) :
    fragsOf (Trace.when p x) = if p then fragsOf x else [] := by
  unfold Trace.when; split <;> rfl
@[simp] theorem fragsOf_whenSome (o : Option α) (f : α → Print Node Unit) :
    fragsOf (Trace.whenSome o f) = o.elim [] fun a => fragsOf (f a) := by cases o <;> rfl
@[simp] theorem fragsOf_each (xs : List α) (f : α → Print Node Unit) :
    fragsOf (Trace.each xs f) = xs.flatMap fun a => fragsOf (f a) := by
  simp only [fragsOf, Trace.log_each, List.filterMap_flatMap]
@[simp] theorem fragsOf_collect (xs : List α) (f : α → Print Node β) :
    fragsOf (Trace.collect xs f) = xs.flatMap fun a => fragsOf (f a) := by
  simp only [fragsOf, Trace.log_collect, List.filterMap_flatMap]

@[simp] theorem attrsOf_bind (p : Print Node α) (f : α → Print Node β) :
    attrsOf (p >>= f) = attrsOf p ++ attrsOf (f p.value) := by simp [attrsOf]
@[simp] theorem attrsOf_emit (frag : SymFrag Node) : attrsOf (emit frag) = frag.attr?.toList := by
  cases frag <;> rfl
@[simp] theorem attrsOf_writeAttr (name : String) (value : List (SymPiece Node)) :
    attrsOf (writeAttr name value) = [(name, value)] := rfl
@[simp] theorem attrsOf_xmlQueueFile (name : String) :
    attrsOf (xmlQueueFile name : Print Node String) = [] := rfl
@[simp] theorem attrsOf_when (p : Prop) [Decidable p] (x : Print Node Unit) :
    attrsOf (Trace.when p x) = if p then attrsOf x else [] := by
  unfold Trace.when; split <;> rfl
@[simp] theorem attrsOf_whenSome (o : Option α) (f : α → Print Node Unit) :
    attrsOf (Trace.whenSome o f) = o.elim [] fun a => attrsOf (f a) := by cases o <;> rfl
theorem attrsOf_of_fragsOf_nil {p : Print Node α} (h : fragsOf p = []) : attrsOf p = [] := by
  simp [attrsOf, h]

end

/-! ## Blocks of attributes -/

/-- `p` writes attributes and nothing else; their names are among `names`, in that order and each at most as often
    as there. -/
structure AttrBlock (names : List String) (p : Print Node Unit) : Prop where
  frags : fragsOf p = (attrsOf p).map Frag.ofAttr
  names : List.Sublist ((attrsOf p).map (·.1)) names

namespace AttrBlock

theorem nothing (names : List String) : AttrBlock names (pure () : Print Node Unit) :=
  ⟨rfl, List.nil_sublist names⟩

theorem single (name : String) (value : List (SymPiece Node)) : AttrBlock [name] (writeAttr name value) :=
  ⟨rfl, List.Sublist.refl _⟩

theorem bind {α : Type} {names : List String} {p : Print Node α} {f : α → Print Node Unit}
    (hp : fragsOf p = []) (hf : AttrBlock names (f p.value)) : AttrBlock names (p >>= f) := by
  refine ⟨?_, ?_⟩
  · simpa [attrsOf, hp] using hf.frags
  · simpa [attrsOf, hp] using hf.names

theorem seq {names names' : List String} {p : Print Node Unit} {f : Unit → Print Node Unit}
    (hp : AttrBlock names p) (hf : AttrBlock names' (f ())) : AttrBlock (names ++ names') (p >>= f) := by
  have hattrs : attrsOf (p >>= f) = attrsOf p ++ attrsOf (f ()) := by simp [attrsOf]
  refine ⟨?_, ?_⟩
  · rw [hattrs, fragsOf_bind, List.map_append, ← hp.frags, ← hf.frags]
  · rw [hattrs, List.map_append]; exact hp.names.append hf.names

theorem when {names : List String} {c : Prop} [Decidable c] {p : Print Node Unit} (hp : AttrBlock names p) :
    AttrBlock names (Trace.when c p) := by
  unfold Trace.when
  split
  · exact hp
  · exact .nothing names

/-- Of two blocks with the same names at most one is written. -/
theorem either {names names' : List String} {c₁ c₂ : Prop} [Decidable c₁] [Decidable c₂] {p q r : Print Node Unit}
    (hne : ¬ (c₁ ∧ c₂)) (hp : AttrBlock names p) (hq : AttrBlock names q) (hr : AttrBlock names' r) :
    AttrBlock (names ++ names') (do Trace.when c₁ p; Trace.when c₂ q; r) := by
  by_cases h₁ : c₁
  · have hskip : AttrBlock names' (do Trace.when c₂ q; r) := by
      rw [Trace.when, if_neg fun h₂ => hne ⟨h₁, h₂⟩]
      exact .bind rfl hr
    exact .seq (.when hp) hskip
  · rw [Trace.when, if_neg h₁]
    exact .bind rfl (.seq (.when hq) hr)

theorem whenSome {α : Type} {names : List String} {o : Option α} {f : α → Print Node Unit}
    (hf : ∀ a, AttrBlock names (f a)) : AttrBlock names (Trace.whenSome o f) := by
  cases o with
  | none => exact .nothing names
  | some a => exact hf a

end AttrBlock

/-! ## References -/

/-- A piece that refers to a node. -/
def Piece.isRef {ι φ : Type} : Piece Node ι φ → Bool
  | .id _ | .typeId _ _ _ => true
  | _ => false

/-- The references in a list of attributes, each with the name of its attribute. -/
def attrRefs {ι φ : Type} (attrs : List (String × List (Piece Node ι φ))) : List (String × Piece Node ι φ) :=
  attrs.flatMap fun a => (a.2.filter Piece.isRef).map (a.1, ·)

@[simp] theorem attrRefs_nil {ι φ : Type} : attrRefs ([] : List (String × List (Piece Node ι φ))) = [] := rfl
@[simp] theorem attrRefs_append {ι φ : Type} (as bs : List (String × List (Piece Node ι φ))) :
    attrRefs (as ++ bs) = attrRefs as ++ attrRefs bs := List.flatMap_append
theorem attrRefs_singleton {ι φ : Type} (name : String) (value : List (Piece Node ι φ)) :
    attrRefs [(name, value)] = (value.filter Piece.isRef).map (name, ·) := by simp [attrRefs]

/-- The references that a printing function writes. -/
def refsOf {α : Type} (p : Print Node α) : List (String × SymPiece Node) := attrRefs (attrsOf p)

/-- A piece that is plain text: it refers to no node and to no file. -/
def Piece.isText {ι φ : Type} : Piece Node ι φ → Bool
  | .str _ | .num _ | .ptr _ => true
  | _ => false

theorem Piece.isRef_of_isText {ι φ : Type} {x : Piece Node ι φ} (h : x.isText = true) : x.isRef = false := by
  cases x <;> simp_all [isText, isRef]

/-- A block of attributes that requests nothing and writes plain text only. -/
class PlainBlock (p : Print Node Unit) : Prop where
  requests : requestsOf p = []
  text : ∀ a ∈ attrsOf p, ∀ x ∈ a.2, x.isText = true

@[simp] theorem requestsOf_plain (p : Print Node Unit) [h : PlainBlock p] : requestsOf p = [] := h.requests
@[simp] theorem refsOf_plain (p : Print Node Unit) [h : PlainBlock p] : refsOf p = [] := by
  rw [refsOf, attrRefs, List.flatMap_eq_nil_iff]
  intro a ha
  rw [List.filter_eq_nil_iff.mpr fun x hx => by simp [Piece.isRef_of_isText (h.text a ha x hx)], List.map_nil]

section
variable {α β : Type}

@[simp] theorem refsOf_pure (a : α) : refsOf (pure a : Print Node α) = [] := rfl
@[simp] theorem refsOf_bind (p : Print Node α) (f : α → Print Node β) :
    refsOf (p >>= f) = refsOf p ++ refsOf (f p.value) := by simp [refsOf]
theorem refsOf_of_fragsOf_nil {p : Print Node α} (h : fragsOf p = []) : refsOf p = [] := by
  rw [refsOf, attrsOf_of_fragsOf_nil h]; rfl
theorem refsOf_writeAttr (name : String) (value : List (SymPiece Node)) :
    refsOf (writeAttr name value) = (value.filter Piece.isRef).map (name, ·) := attrRefs_singleton name value
@[simp] theorem refsOf_writeAttr_id (name : String) (i : Option Node) :
    refsOf (writeAttr name [.id i]) = [(name, .id i)] := rfl
@[simp] theorem refsOf_when (p : Prop) [Decidable p] (x : Print Node Unit) :
    refsOf (Trace.when p x) = if p then refsOf x else [] := by
  unfold Trace.when; split <;> rfl
@[simp] theorem refsOf_whenSome (o : Option α) (f : α → Print Node Unit) :
    refsOf (Trace.whenSome o f) = o.elim [] fun a => refsOf (f a) := by cases o <;> rfl

end

namespace PlainBlock

instance nothing : PlainBlock (pure () : Print Node Unit) := ⟨rfl, by simp⟩

theorem of_text {name : String} {value : List (SymPiece Node)} (h : ∀ x ∈ value, x.isText = true) :
    PlainBlock (writeAttr name value) := ⟨rfl, by simpa using h⟩

instance str (name text : String) : PlainBlock (writeAttr name [.str text] : Print Node Unit) :=
  of_text (by simp [Piece.isText])

instance num (name : String) (i : Int) : PlainBlock (writeAttr name [.num i] : Print Node Unit) :=
  of_text (by simp [Piece.isText])

instance ptr (name : String) (address : Nat) : PlainBlock (writeAttr name [.ptr address] : Print Node Unit) :=
  of_text (by simp [Piece.isText])

instance when (c : Prop) [Decidable c] (p : Print Node Unit) [h : PlainBlock p] : PlainBlock (Trace.when c p) := by
  unfold Trace.when
  split
  · exact h
  · exact nothing

instance whenSome {α : Type} (o : Option α) (f : α → Print Node Unit) [h : ∀ a, PlainBlock (f a)] :
    PlainBlock (Trace.whenSome o f) := by
  cases o with
  | none => exact nothing
  | some a => exact h a

theorem seq {p : Print Node Unit} {f : Unit → Print Node Unit} (hp : PlainBlock p) (hf : PlainBlock (f ())) :
    PlainBlock (p >>= f) where
  requests := by simp [hp.requests, hf.requests]
  text a ha := by
    rw [attrsOf_bind, List.mem_append] at ha
    exact ha.elim (hp.text a) (hf.text a)

end PlainBlock

section
variable [DecidableEq Node] (tu : TranslationUnit Node)

@[simp] theorem requestsOf_addNode (n : Node) (c : Bool) : requestsOf (addNode tu n c) = [(n, c)] := rfl
@[simp] theorem fragsOf_addNode (n : Node) (c : Bool) : fragsOf (addNode tu n c) = [] := rfl
@[simp] theorem value_addNode (n : Node) (c : Bool) : (addNode tu n c).value = answer tu n :=
  xmlAddNode_value tu n c

/-! ## References to types -/

/-- The node whose index a reference to the type `t` names: that of the typedef it is named by, if this has one,
    else that of its main variant. -/
def idrefBase (t : Node) : Option Node :=
  match (tu.tree t).typeName with
  | some name => if (answer tu name).isSome then answer tu name else answer tu (tu.typeMainVariant t)
  | none => answer tu (tu.typeMainVariant t)

/-- The qualifiers that a reference to the type `t` adds. -/
def idrefSuffix (t : Node) : Quals :=
  match (tu.tree t).typeName with
  | some name =>
      if (answer tu name).isSome then (tu.tree t).cpTypeQuals.diff (tu.tree (tu.treeType name)).cpTypeQuals
      else (tu.tree t).cpTypeQuals
  | none => (tu.tree t).cpTypeQuals

/-- What `xml_get_idref` requests. -/
def idrefTargets (t : Node) : List Node := tu.typeMainVariant t :: (tu.tree t).typeName.toList

/-- What `xml_print_type_idref` requests. -/
def typeTargets (t : Node) : List Node := idrefTargets tu t ++ if idrefSuffix tu t ≠ Quals.none then [t] else []

/-- The reference to the type `t`. -/
def typeRef (t : Node) : SymPiece Node := .typeId t (idrefBase tu t) (idrefSuffix tu t)

@[simp] theorem value_xmlGetIdref (t : Node) (c : Bool) :
    (xmlGetIdref tu t c).value = (idrefBase tu t, idrefSuffix tu t) := by
  unfold xmlGetIdref idrefBase idrefSuffix
  cases (tu.tree t).typeName with
  | none => simp
  | some name => simp; split <;> rfl

@[simp] theorem requestsOf_xmlGetIdref (t : Node) (c : Bool) :
    requestsOf (xmlGetIdref tu t c) = (idrefTargets tu t).map (·, c) := by
  unfold xmlGetIdref idrefTargets
  cases (tu.tree t).typeName with
  | none => simp
  | some name => simp; split <;> rfl

@[simp] theorem fragsOf_xmlGetIdref (t : Node) (c : Bool) : fragsOf (xmlGetIdref tu t c) = [] := by
  unfold xmlGetIdref
  cases (tu.tree t).typeName with
  | none => simp
  | some name => simp; split <;> rfl

@[simp] theorem value_xmlPrintTypeIdref (t : Node) (c : Bool) :
    (xmlPrintTypeIdref tu t c).value = typeRef tu t := by
  simp [xmlPrintTypeIdref, typeRef]

@[simp] theorem requestsOf_xmlPrintTypeIdref (t : Node) (c : Bool) :
    requestsOf (xmlPrintTypeIdref tu t c) = (typeTargets tu t).map (·, c) := by
  unfold typeTargets
  split <;> simp_all [xmlPrintTypeIdref]

@[simp] theorem fragsOf_xmlPrintTypeIdref (t : Node) (c : Bool) : fragsOf (xmlPrintTypeIdref tu t c) = [] := by
  simp [xmlPrintTypeIdref]

@[simp] theorem refsOf_addNode (n : Node) (c : Bool) : refsOf (addNode tu n c) = [] := rfl
@[simp] theorem refsOf_xmlPrintTypeIdref (t : Node) (c : Bool) : refsOf (xmlPrintTypeIdref tu t c) = [] :=
  refsOf_of_fragsOf_nil (fragsOf_xmlPrintTypeIdref tu t c)

end

/-! ## Attributes without references -/

theorem flagAttribute_block (name : String) (flag : Bool) :
    AttrBlock [name] (flagAttribute name flag : Print Node Unit) := .when (.single name _)

instance flagAttribute_plain (name : String) (flag : Bool) :
    PlainBlock (flagAttribute name flag : Print Node Unit) := PlainBlock.when _ _

theorem constantAttribute_block (name : String) (c : Option IntCst) :
    AttrBlock [name] (constantAttribute name c : Print Node Unit) := .whenSome fun _ => .when (.single name _)

instance constantAttribute_plain (name : String) (c : Option IntCst) :
    PlainBlock (constantAttribute name c : Print Node Unit) := PlainBlock.whenSome _ _

theorem xmlPrintLocationAttribute_block (file : String) (line : Nat) :
    AttrBlock ["location", "file", "line"] (xmlPrintLocationAttribute file line : Print Node Unit) :=
  .bind rfl (.seq (.single "location" _) (.seq (.single "file" _) (.single "line" _)))

@[simp] theorem requestsOf_xmlPrintLocationAttribute (file : String) (line : Nat) :
    requestsOf (xmlPrintLocationAttribute file line : Print Node Unit) = [] := rfl

@[simp] theorem refsOf_xmlPrintLocationAttribute (file : String) (line : Nat) :
    refsOf (xmlPrintLocationAttribute file line : Print Node Unit) = [] := rfl

theorem xmlPrintEndlineAttribute_block (body : Body) :
    AttrBlock ["endline"] (xmlPrintEndlineAttribute body : Print Node Unit) := .whenSome fun _ => .single _ _

instance xmlPrintEndlineAttribute_plain (body : Body) :
    PlainBlock (xmlPrintEndlineAttribute body : Print Node Unit) := PlainBlock.whenSome _ _

theorem xmlPrintNameAttribute_block (n : Option String) :
    AttrBlock ["name"] (xmlPrintNameAttribute n : Print Node Unit) := .single _ _

instance xmlPrintNameAttribute_plain (n : Option String) :
    PlainBlock (xmlPrintNameAttribute n : Print Node Unit) := PlainBlock.str _ _

theorem xmlPrintDefaultArgumentAttribute_block (t : String) :
    AttrBlock ["default"] (xmlPrintDefaultArgumentAttribute t : Print Node Unit) := .single _ _

instance xmlPrintDefaultArgumentAttribute_plain (t : String) :
    PlainBlock (xmlPrintDefaultArgumentAttribute t : Print Node Unit) := PlainBlock.str _ _

theorem xmlPrintInitAttribute_block (t : Option Initial) :
    AttrBlock ["init"] (xmlPrintInitAttribute t : Print Node Unit) := .whenSome fun _ => .single _ _

instance xmlPrintInitAttribute_plain (t : Option Initial) :
    PlainBlock (xmlPrintInitAttribute t : Print Node Unit) := PlainBlock.whenSome _ _

theorem attributeText_isText (a : Attribute) : ∀ x ∈ (attributeText a : List (SymPiece Node)), x.isText = true := by
  intro x hx
  unfold attributeText at hx
  rcases List.mem_cons.mp hx with rfl | hx
  · rfl
  · cases hargs : a.args with
    | nil => simp [hargs] at hx
    | cons arg args =>
        simp only [hargs, List.mem_cons, List.mem_append, List.mem_flatMap, attribArg, List.not_mem_nil,
          or_false] at hx
        rcases hx with (rfl | rfl | ⟨b, _, rfl | rfl⟩) | rfl <;> rfl

theorem xmlPrintAttributesAttribute_block (as bs : List Attribute) :
    AttrBlock ["attributes"] (xmlPrintAttributesAttribute as bs : Print Node Unit) := by
  unfold xmlPrintAttributesAttribute
  split
  · exact .nothing _
  · exact .single _ _

instance xmlPrintAttributesAttribute_plain (as bs : List Attribute) :
    PlainBlock (xmlPrintAttributesAttribute as bs : Print Node Unit) := by
  unfold xmlPrintAttributesAttribute
  split
  · exact .nothing
  · refine .of_text fun x hx => ?_
    rcases List.mem_append.mp hx with hx | hx
    · exact attributeText_isText _ x hx
    · obtain ⟨a, _, hx⟩ := List.mem_flatMap.mp hx
      rcases List.mem_cons.mp hx with rfl | hx
      · rfl
      · exact attributeText_isText a x hx

@[simp] theorem requestsOf_xmlOutputEllipsis : requestsOf (xmlOutputEllipsis : Print Node Unit) = [] := rfl

section
variable (tu : TranslationUnit Node)

theorem xmlPrintDeclLocationAttribute_block (d : Node) :
    AttrBlock ["location", "file", "line"] (xmlPrintDeclLocationAttribute tu d) :=
  xmlPrintLocationAttribute_block _ _

@[simp] theorem requestsOf_xmlPrintDeclLocationAttribute (d : Node) :
    requestsOf (xmlPrintDeclLocationAttribute tu d) = [] := rfl

@[simp] theorem refsOf_xmlPrintDeclLocationAttribute (d : Node) :
    refsOf (xmlPrintDeclLocationAttribute tu d) = [] := rfl

theorem xmlPrintMangledAttribute_block (n : Node) : AttrBlock ["mangled"] (xmlPrintMangledAttribute tu n) :=
  .whenSome fun _ => .single _ _

instance xmlPrintMangledAttribute_plain (n : Node) : PlainBlock (xmlPrintMangledAttribute tu n) :=
  PlainBlock.whenSome _ _

theorem xmlPrintDemangledAttribute_block (n : Node) : AttrBlock ["demangled"] (xmlPrintDemangledAttribute tu n) :=
  .whenSome fun _ => .single _ _

instance xmlPrintDemangledAttribute_plain (n : Node) : PlainBlock (xmlPrintDemangledAttribute tu n) :=
  PlainBlock.whenSome _ _

instance xmlPrintMutableAttribute_plain (n : Node) : PlainBlock (xmlPrintMutableAttribute tu n) :=
  flagAttribute_plain _ _
instance xmlPrintExplicitAttribute_plain (d : Node) : PlainBlock (xmlPrintExplicitAttribute tu d) :=
  flagAttribute_plain _ _
instance xmlPrintConstMethodAttribute_plain (d : Node) : PlainBlock (xmlPrintConstMethodAttribute tu d) :=
  flagAttribute_plain _ _
instance xmlPrintStaticMethodAttribute_plain (d : Node) : PlainBlock (xmlPrintStaticMethodAttribute tu d) :=
  flagAttribute_plain _ _
instance xmlPrintStaticAttribute_plain (d : Node) : PlainBlock (xmlPrintStaticAttribute tu d) :=
  flagAttribute_plain _ _
instance xmlPrintExternAttribute_plain (d : Node) : PlainBlock (xmlPrintExternAttribute tu d) :=
  flagAttribute_plain _ _
instance xmlPrintInlineAttribute_plain (d : Node) : PlainBlock (xmlPrintInlineAttribute tu d) :=
  flagAttribute_plain _ _
instance xmlPrintFunctionExternAttribute_plain (d : Node) : PlainBlock (xmlPrintFunctionExternAttribute tu d) :=
  flagAttribute_plain _ _
instance xmlPrintArtificialAttribute_plain (d : Node) : PlainBlock (xmlPrintArtificialAttribute tu d) :=
  flagAttribute_plain _ _
instance xmlPrintIncompleteAttribute_plain (t : Node) : PlainBlock (xmlPrintIncompleteAttribute tu t) :=
  flagAttribute_plain _ _
instance xmlPrintAbstractAttribute_plain (t : Node) : PlainBlock (xmlPrintAbstractAttribute tu t) :=
  flagAttribute_plain _ _
instance xmlPrintSizeAttribute_plain (t : Node) : PlainBlock (xmlPrintSizeAttribute tu t) :=
  constantAttribute_plain _ _
instance xmlPrintAlignAttribute_plain (t : Node) : PlainBlock (xmlPrintAlignAttribute tu t) :=
  PlainBlock.num _ _
instance xmlPrintOffsetAttribute_plain (d : Node) : PlainBlock (xmlPrintOffsetAttribute tu d) :=
  PlainBlock.whenSome _ _
instance xmlPrintBitsAttribute_plain (d : Node) : PlainBlock (xmlPrintBitsAttribute tu d) :=
  PlainBlock.when _ _
instance xmlPrintArrayAttributes_plain (t : Node) : PlainBlock (xmlPrintArrayAttributes tu t) :=
  PlainBlock.seq (.str _ _) (.str _ _)

theorem xmlPrintOffsetAttribute_block (d : Node) : AttrBlock ["offset"] (xmlPrintOffsetAttribute tu d) :=
  .whenSome fun _ => .whenSome fun _ => .when (.single _ _)

theorem xmlPrintBitsAttribute_block (d : Node) : AttrBlock ["bits"] (xmlPrintBitsAttribute tu d) :=
  .when (constantAttribute_block _ _)

theorem xmlPrintArrayAttributes_block (t : Node) : AttrBlock ["min", "max"] (xmlPrintArrayAttributes tu t) :=
  .seq (.single "min" _) (.single "max" _)

end

/-! ## Attributes with references -/

section

theorem xmlPrintIdAttribute_block (n : Node) : AttrBlock ["id"] (xmlPrintIdAttribute n) := .single _ _

@[simp] theorem requestsOf_xmlPrintIdAttribute (n : Node) : requestsOf (xmlPrintIdAttribute n) = [] := rfl

@[simp] theorem refsOf_xmlPrintIdAttribute (n : Node) :
    refsOf (xmlPrintIdAttribute n) = [("id", .id (some n))] := rfl

variable [DecidableEq Node] (tu : TranslationUnit Node)

theorem xmlPrintTypeAttribute_block (t : Node) (c : Bool) : AttrBlock ["type"] (xmlPrintTypeAttribute tu t c) :=
  .bind (fragsOf_xmlPrintTypeIdref tu t c) (.single _ _)

@[simp] theorem requestsOf_xmlPrintTypeAttribute (t : Node) (c : Bool) :
    requestsOf (xmlPrintTypeAttribute tu t c) = (typeTargets tu t).map (·, c) := by simp [xmlPrintTypeAttribute]

@[simp] theorem refsOf_xmlPrintTypeAttribute (t : Node) (c : Bool) :
    refsOf (xmlPrintTypeAttribute tu t c) = [("type", typeRef tu t)] := by
  simp [xmlPrintTypeAttribute, refsOf_writeAttr, typeRef, Piece.isRef]

theorem xmlPrintReturnsAttribute_block (t : Node) (c : Bool) :
    AttrBlock ["returns"] (xmlPrintReturnsAttribute tu t c) :=
  .bind (fragsOf_xmlPrintTypeIdref tu t c) (.single _ _)

@[simp] theorem requestsOf_xmlPrintReturnsAttribute (t : Node) (c : Bool) :
    requestsOf (xmlPrintReturnsAttribute tu t c) = (typeTargets tu t).map (·, c) := by simp [xmlPrintReturnsAttribute]

@[simp] theorem refsOf_xmlPrintReturnsAttribute (t : Node) (c : Bool) :
    refsOf (xmlPrintReturnsAttribute tu t c) = [("returns", typeRef tu t)] := by
  simp [xmlPrintReturnsAttribute, refsOf_writeAttr, typeRef, Piece.isRef]

theorem xmlPrintBaseTypeAttribute_block (t : Node) (c : Bool) :
    AttrBlock ["basetype"] (xmlPrintBaseTypeAttribute tu t c) := .bind rfl (.single _ _)

@[simp] theorem requestsOf_xmlPrintBaseTypeAttribute (t : Node) (c : Bool) :
    requestsOf (xmlPrintBaseTypeAttribute tu t c) = [(t, c)] := by simp [xmlPrintBaseTypeAttribute]

@[simp] theorem refsOf_xmlPrintBaseTypeAttribute (t : Node) (c : Bool) :
    refsOf (xmlPrintBaseTypeAttribute tu t c) = [("basetype", .id (answer tu t))] := by
  simp [xmlPrintBaseTypeAttribute]

/-- What a `context` attribute requests and refers to. -/
def contextTargets (n : Node) : List Node := if n ≠ tu.globalNamespace then [tu.cpDeclContext n] else []

theorem xmlPrintContextAttribute_block (n : Node) :
    AttrBlock ["context", "access"] (xmlPrintContextAttribute tu n) :=
  .when (.bind rfl (.seq (.single "context" _) (.when (.single "access" _))))

@[simp] theorem requestsOf_xmlPrintContextAttribute (n : Node) :
    requestsOf (xmlPrintContextAttribute tu n) = (contextTargets tu n).map (·, false) := by
  unfold contextTargets
  split <;> simp_all [xmlPrintContextAttribute]

@[simp] theorem refsOf_xmlPrintContextAttribute (n : Node) :
    refsOf (xmlPrintContextAttribute tu n) =
      (contextTargets tu n).map fun m => ("context", .id (answer tu m)) := by
  unfold contextTargets
  split <;> simp_all [xmlPrintContextAttribute]

/-! ## Lists of references -/

/-- The methods that `xml_print_overrides` finds for `fndecl` from the class `type` on, in order. -/
def overriddenMethodsFuel (fndecl : Node) : Nat → Node → List Node
  | 0, _ => []
  | fuel + 1, type => (tu.polymorphicBases type).flatMap fun base =>
      match tu.lookForOverridesHere base fndecl with
      | some fn => [fn]
      | none => overriddenMethodsFuel fndecl fuel base

/-- The methods in the `overrides` attribute of `d`, before those without an index are left out. -/
def overriddenMethods (d : Node) : List Node :=
  overriddenMethodsFuel tu d (tu.rank (tu.cpDeclContext d) + 1) (tu.cpDeclContext d)

/-- The pieces of a list that skips index 0, for the requests `ns`. -/
def listedIds (ns : List Node) : List (SymPiece Node) := ns.flatMap fun n => listedId (answer tu n)

/-- A list that skips index 0 refers to the nodes that answer its requests. -/
theorem filter_isRef_listedIds (ns : List Node) :
    (listedIds tu ns).filter Piece.isRef = (ns.filterMap (answer tu)).map fun r => .id (some r) := by
  induction ns with
  | nil => rfl
  | cons n ns ih =>
      have hcons : listedIds tu (n :: ns) = listedId (answer tu n) ++ listedIds tu ns := rfl
      rw [hcons, List.filter_append, ih, List.filterMap_cons]
      cases answer tu n <;> rfl

theorem xmlPrintOverridesFuel_spec (fndecl : Node) (fuel : Nat) (type : Node) :
    let p := xmlPrintOverridesFuel tu fndecl fuel type
    p.value.2 = listedIds tu (overriddenMethodsFuel tu fndecl fuel type) ∧
      requestsOf p = (overriddenMethodsFuel tu fndecl fuel type).map (·, true) ∧ fragsOf p = [] := by
  induction fuel generalizing type with
  | zero => exact ⟨rfl, rfl, rfl⟩
  | succ fuel ih =>
      have hround : ∀ base,
          let p := xmlPrintOverridesR tu (xmlPrintOverridesFuel tu fndecl fuel) fndecl base
          let found := match tu.lookForOverridesHere base fndecl with
            | some fn => [fn]
            | none => overriddenMethodsFuel tu fndecl fuel base
          p.value.2 = listedIds tu found ∧ requestsOf p = found.map (·, true) ∧ fragsOf p = [] := by
        intro base
        unfold xmlPrintOverridesR
        cases tu.lookForOverridesHere base fndecl with
        | none => exact ih base
        | some fn => simp [listedIds]
      refine ⟨?_, ?_, ?_⟩
      · simp only [xmlPrintOverridesFuel, overriddenMethodsFuel, Trace.value_bind, Trace.value_collect,
          Trace.value_pure, ← List.flatMap_def, List.flatMap_map, listedIds, List.flatMap_assoc]
        exact congrArg List.flatten (List.map_congr_left fun base _ => (hround base).1)
      · simp only [xmlPrintOverridesFuel, overriddenMethodsFuel, requestsOf_bind, requestsOf_collect,
          requestsOf_pure, List.append_nil, List.map_flatMap]
        exact congrArg List.flatten (List.map_congr_left fun base _ => (hround base).2.1)
      · simp only [xmlPrintOverridesFuel, fragsOf_bind, fragsOf_collect, fragsOf_pure, List.append_nil,
          List.flatMap_eq_nil_iff]
        exact fun base _ => (hround base).2.2

@[simp] theorem requestsOf_xmlPrintOverridesMethodAttribute (d : Node) :
    requestsOf (xmlPrintOverridesMethodAttribute tu d) =
      if (tu.tree d).declVirtualP then (overriddenMethods tu d).map (·, true) else [] := by
  simp [xmlPrintOverridesMethodAttribute, xmlPrintOverrides, xmlPrintOverridesFuel_spec, overriddenMethods]

theorem xmlPrintOverridesMethodAttribute_block (d : Node) :
    AttrBlock ["overrides"] (xmlPrintOverridesMethodAttribute tu d) :=
  .when (.bind (xmlPrintOverridesFuel_spec tu d _ _).2.2 (.single _ _))

@[simp] theorem refsOf_xmlPrintOverridesMethodAttribute (d : Node) :
    refsOf (xmlPrintOverridesMethodAttribute tu d) =
      if (tu.tree d).declVirtualP then
        ((overriddenMethods tu d).filterMap (answer tu)).map fun r => ("overrides", .id (some r))
      else [] := by
  have hrefs : ∀ fuel type, refsOf (xmlPrintOverridesFuel tu d fuel type) = [] := fun fuel type =>
    refsOf_of_fragsOf_nil (xmlPrintOverridesFuel_spec tu d fuel type).2.2
  simp [xmlPrintOverridesMethodAttribute, hrefs, refsOf_writeAttr, xmlPrintOverrides,
    xmlPrintOverridesFuel_spec, filter_isRef_listedIds, overriddenMethods, Function.comp_def]

theorem xmlPrintVirtualMethodAttributes_block (d : Node) :
    AttrBlock ["virtual", "pure_virtual", "overrides"] (xmlPrintVirtualMethodAttributes tu d) :=
  .seq (flagAttribute_block "virtual" _)
    (.seq (flagAttribute_block "pure_virtual" _) (xmlPrintOverridesMethodAttribute_block tu d))

@[simp] theorem requestsOf_xmlPrintVirtualMethodAttributes (d : Node) :
    requestsOf (xmlPrintVirtualMethodAttributes tu d) =
      if (tu.tree d).declVirtualP then (overriddenMethods tu d).map (·, true) else [] := by
  simp [xmlPrintVirtualMethodAttributes]

@[simp] theorem refsOf_xmlPrintVirtualMethodAttributes (d : Node) :
    refsOf (xmlPrintVirtualMethodAttributes tu d) =
      if (tu.tree d).declVirtualP then
        ((overriddenMethods tu d).filterMap (answer tu)).map fun r => ("overrides", .id (some r))
      else [] := by
  simp [xmlPrintVirtualMethodAttributes]

omit [DecidableEq Node] in
/-- A list with separators holds the separator and what it held before. -/
theorem mem_intersperse {α : Type} {sep x : α} {xs : List α} (h : x ∈ xs.intersperse sep) : x = sep ∨ x ∈ xs := by
  induction xs with
  | nil => simp at h
  | cons y ys ih =>
      cases ys with
      | nil => exact Or.inr (by simpa using h)
      | cons z zs =>
          rw [List.intersperse_cons_cons] at h
          rcases List.mem_cons.mp h with rfl | h
          · exact Or.inr List.mem_cons_self
          rcases List.mem_cons.mp h with rfl | h
          · exact Or.inl rfl
          · exact (ih h).imp id fun hx => List.mem_cons_of_mem _ hx

omit [DecidableEq Node] in
/-- A separator between references is no reference. -/
theorem filter_isRef_intersperse (sep : String) (refs : List (SymPiece Node)) (h : ∀ x ∈ refs, x.isRef = true) :
    (refs.intersperse (.str sep)).filter Piece.isRef = refs := by
  induction refs with
  | nil => rfl
  | cons x xs ih =>
      have hx : x.isRef = true := h x List.mem_cons_self
      have ih := ih fun y hy => h y (List.mem_cons_of_mem _ hy)
      cases xs with
      | nil => simp [hx]
      | cons y ys =>
          rw [List.intersperse_cons_cons, List.filter_cons_of_pos hx, List.filter_cons_of_neg (by simp [Piece.isRef]),
            ih]

theorem xmlPrintThrowAttribute_block (ft : Node) (c : Bool) :
    AttrBlock ["throw"] (xmlPrintThrowAttribute tu ft c) :=
  .whenSome fun _ => .bind (by simp) (.single _ _)

@[simp] theorem requestsOf_xmlPrintThrowAttribute (ft : Node) (c : Bool) :
    requestsOf (xmlPrintThrowAttribute tu ft c) =
      ((tu.tree ft).typeRaisesExceptions.getD []).flatMap fun t => (typeTargets tu t).map (·, c) := by
  unfold xmlPrintThrowAttribute
  cases (tu.tree ft).typeRaisesExceptions <;> simp

@[simp] theorem refsOf_xmlPrintThrowAttribute (ft : Node) (c : Bool) :
    refsOf (xmlPrintThrowAttribute tu ft c) =
      ((tu.tree ft).typeRaisesExceptions.getD []).map fun t => ("throw", typeRef tu t) := by
  unfold xmlPrintThrowAttribute
  cases (tu.tree ft).typeRaisesExceptions with
  | none => rfl
  | some raises =>
      have hcollect : refsOf (Trace.collect raises fun t => xmlPrintTypeIdref tu t c) = [] :=
        refsOf_of_fragsOf_nil (by simp)
      have hall : ∀ x ∈ raises.map (typeRef tu), x.isRef = true := by
        intro x hx
        obtain ⟨t, _, rfl⟩ := List.mem_map.mp hx
        rfl
      simp [hcollect, refsOf_writeAttr, filter_isRef_intersperse " " _ hall, Function.comp_def]

/-- The friends that `xml_print_befriending_attribute` lists. -/
def listedFriends (befriending : List Node) : List Node :=
  befriending.filter fun frnd => tu.treeCode frnd ≠ .templateDecl

theorem xmlPrintBefriendingAttribute_block (befriending : List Node) :
    AttrBlock ["befriending"] (xmlPrintBefriendingAttribute tu befriending) :=
  .when (.bind (by simp) (.single _ _))

@[simp] theorem requestsOf_xmlPrintBefriendingAttribute (befriending : List Node) :
    requestsOf (xmlPrintBefriendingAttribute tu befriending) =
      (listedFriends tu befriending).map (·, false) := by
  unfold xmlPrintBefriendingAttribute listedFriends
  simp only [requestsOf_when, requestsOf_bind, requestsOf_collect, requestsOf_addNode, requestsOf_writeAttr,
    List.append_nil]
  split
  · simp [List.map_eq_flatMap]
  · rename_i h; rw [not_not.mp h]; rfl

@[simp] theorem refsOf_xmlPrintBefriendingAttribute (befriending : List Node) :
    refsOf (xmlPrintBefriendingAttribute tu befriending) =
      (listedFriends tu befriending).map fun frnd => ("befriending", .id (answer tu frnd)) := by
  unfold xmlPrintBefriendingAttribute listedFriends
  have hcollect : ∀ frnds : List Node, refsOf (Trace.collect frnds fun frnd => addNode tu frnd false) = [] :=
    fun frnds => refsOf_of_fragsOf_nil (by simp)
  have hall : ∀ frnds : List Node, ∀ x ∈ (frnds.map (answer tu)).map Piece.id,
      (x : SymPiece Node).isRef = true := by
    intro frnds x hx
    obtain ⟨i, _, rfl⟩ := List.mem_map.mp hx
    rfl
  simp only [refsOf_when, refsOf_bind, hcollect, List.nil_append, Trace.value_collect, value_addNode,
    refsOf_writeAttr, filter_isRef_intersperse " " _ (hall _)]
  split
  · simp
  · rename_i h; rw [not_not.mp h]; rfl

@[simp] theorem value_listMember (n : Node) : (listMember tu n).value = listedId (answer tu n) := by
  simp [listMember]
@[simp] theorem requestsOf_listMember (n : Node) : requestsOf (listMember tu n) = [(n, true)] := by
  simp [listMember]
@[simp] theorem fragsOf_listMember (n : Node) : fragsOf (listMember tu n) = [] := by simp [listMember]

theorem xmlPrintNamespaceMembers_block (ns : Node) : AttrBlock ["members"] (xmlPrintNamespaceMembers tu ns) :=
  .bind (by simp) (.single _ _)

@[simp] theorem requestsOf_xmlPrintNamespaceMembers (ns : Node) :
    requestsOf (xmlPrintNamespaceMembers tu ns) = (tu.allDecls ns).map (·, true) := by
  simp [xmlPrintNamespaceMembers, List.map_eq_flatMap]

theorem attrsOf_xmlPrintNamespaceMembers (ns : Node) :
    attrsOf (xmlPrintNamespaceMembers tu ns) = [("members", listedIds tu (tu.allDecls ns))] := by
  have hcollect : attrsOf (Trace.collect (tu.allDecls ns) (listMember tu)) = [] :=
    attrsOf_of_fragsOf_nil (by simp)
  simp [xmlPrintNamespaceMembers, hcollect, listedIds, List.flatMap_def]

@[simp] theorem refsOf_xmlPrintNamespaceMembers (ns : Node) :
    refsOf (xmlPrintNamespaceMembers tu ns) =
      ((tu.allDecls ns).filterMap (answer tu)).map fun r => ("members", .id (some r)) := by
  simp [refsOf, attrsOf_xmlPrintNamespaceMembers, attrRefs_singleton, filter_isRef_listedIds]

theorem xmlPrintRecordMembers_block (rt : Node) : AttrBlock ["members"] (xmlPrintRecordMembers tu rt) :=
  .bind (by simp) (.bind (by simp) (.single _ _))

/-- The members that a class lists. -/
def listedMembers (rt : Node) : List Node := listedFields tu rt ++ listedMethods tu rt

@[simp] theorem requestsOf_xmlPrintRecordMembers (rt : Node) :
    requestsOf (xmlPrintRecordMembers tu rt) = (listedMembers tu rt).map (·, true) := by
  simp [xmlPrintRecordMembers, listedMembers, List.map_eq_flatMap]

@[simp] theorem refsOf_xmlPrintRecordMembers (rt : Node) :
    refsOf (xmlPrintRecordMembers tu rt) =
      ((listedMembers tu rt).filterMap (answer tu)).map fun r => ("members", .id (some r)) := by
  have hcollect : ∀ ns, refsOf (Trace.collect ns (listMember tu)) = [] :=
    fun ns => refsOf_of_fragsOf_nil (by simp)
  have hvalue : ((listedFields tu rt).map fun n => listedId (answer tu n)).flatten ++
      ((listedMethods tu rt).map fun n => listedId (answer tu n)).flatten = listedIds tu (listedMembers tu rt) := by
    simp [listedIds, listedMembers, List.flatMap_def]
  simp only [xmlPrintRecordMembers, refsOf_bind, hcollect, List.nil_append, Trace.value_collect,
    value_listMember, refsOf_writeAttr, hvalue, filter_isRef_listedIds, List.map_map]
  rfl

theorem xmlPrintBasesAttribute_block (bases : List (BaseBinfo Node)) :
    AttrBlock ["bases"] (xmlPrintBasesAttribute tu bases) := .bind (by simp) (.single _ _)

@[simp] theorem requestsOf_xmlPrintBasesAttribute (bases : List (BaseBinfo Node)) :
    requestsOf (xmlPrintBasesAttribute tu bases) = bases.map fun base => (base.type, true) := by
  simp [xmlPrintBasesAttribute, List.map_eq_flatMap]

@[simp] theorem refsOf_xmlPrintBasesAttribute (bases : List (BaseBinfo Node)) :
    refsOf (xmlPrintBasesAttribute tu bases) =
      bases.map fun base => ("bases", .id (answer tu base.type)) := by
  have hcollect : refsOf (Trace.collect bases fun base => do
      let id ← addNode tu base.type true
      pure (base.access.mark ++ [Piece.id id, .str " "])) = [] := refsOf_of_fragsOf_nil (by simp)
  have hpieces : ∀ bs : List (BaseBinfo Node),
      (bs.flatMap fun base => base.access.mark ++ [Piece.id (answer tu base.type), .str " "]).filter Piece.isRef
        = bs.map fun base => (.id (answer tu base.type) : SymPiece Node) := by
    intro bs
    induction bs with
    | nil => rfl
    | cons base bs ih =>
        rw [List.flatMap_cons, List.filter_append, ih, List.map_cons]
        cases base.access <;> rfl
  simp only [xmlPrintBasesAttribute, refsOf_bind, hcollect, List.nil_append, Trace.value_collect,
    Trace.value_bind, value_addNode, Trace.value_pure, refsOf_writeAttr, ← List.flatMap_def, hpieces, List.map_map]
  rfl

end

end

end GccXml
