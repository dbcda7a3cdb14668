import GccXml.Lib.Cycles
import GccXml.Xml.Answer
import GccXml.Xml.FileTable
import GccXml.Xml.TypeReferences

namespace GccXml

/-! # `Xml.Aliases` — where chains of typedefs and qualified types end

A `Typedef` or `CvQualifiedType` element stands for the type that its `type` attribute refers to. The chains of such
references are those of the graph: from a typedef to the typedef that the reference to its target names.

An element of a variant refers to the id without the suffix, so its chain goes to a typedef or to a main variant and
never to a variant again. An element of a typedef refers to the name of its target, which may be another typedef, or to
the target's main variant or one of its variants. So a chain of elements is, up to the steps through variants, a chain
of typedefs in the graph, and it ends if and only if that chain does.

Two things can keep a chain from ending at an element that is no alias: what it refers to is not printed, or it comes
back to where it was. The first is a property of the graph and of what is reached (`AliasTargetsPrinted`). The second
is excluded for typedefs that are well-founded as GCC makes them, except for a declaration without an original type,
which names its own type; `xml_add_type_decl` and its callers decide whether such a one is reached. -/

open DumpInfo
open Cycles

section
variable {Node : Type}

/-! ## Chains in the document -/

/-- An element that stands for another type. -/
def Element.IsAlias {ι φ : Type} (e : Element Node ι φ) : Prop := e.tag ∈ ["Typedef", "CvQualifiedType"]

/-- The `type` attribute of `e` is the id of `e'`. -/
def RefersTo (e e' : Element Node Nat Nat) : Prop :=
  ∃ value, e.attr? "type" = some value ∧ e'.idText = some (valueText value)

/-- **Following `type` from `e` ends at an element that is no alias**, whichever elements have the ids. -/
inductive AliasEnds (es : List (Element Node Nat Nat)) : Element Node Nat Nat → Prop
  | other {e} : ¬ e.IsAlias → AliasEnds es e
  | follow {e} : (∃ e' ∈ es, RefersTo e e') → (∀ e' ∈ es, RefersTo e e' → AliasEnds es e') → AliasEnds es e

/-- One alias of the elements `es` refers to another element of them. -/
def AliasRefersTo (es : List (Element Node Nat Nat)) (e e' : Element Node Nat Nat) : Prop :=
  e.IsAlias ∧ e' ∈ es ∧ RefersTo e e'

/-- **Alias chains end**: from each alias an element that is none is reached, and no typedef refers to itself directly or
    through other aliases. -/
structure AliasChainsEnd (es : List (Element Node Nat Nat)) : Prop where
  ends : ∀ e ∈ es, e.IsAlias → AliasEnds es e
  acyclic : ∀ e ∈ es, e.tag = "Typedef" → ¬ LeadsBack (AliasRefersTo es) e

/-- The `type` of a typedef is the id of an element. -/
theorem AliasChainsEnd.exists_idText {es : List (Element Node Nat Nat)} (h : AliasChainsEnd es) :
    ∀ e ∈ es, e.tag = "Typedef" → ∀ value ∈ e.attr? "type", ∃ e' ∈ es, e'.idText = some (valueText value) := by
  intro e he htag value htype
  have halias : e.IsAlias := by simp [Element.IsAlias, htag]
  cases h.ends e he halias with
  | other hno => exact absurd halias hno
  | follow hrefers _ =>
      obtain ⟨e', he', value', htype', hid⟩ := hrefers
      obtain rfl := Option.some.inj (htype'.symm.trans htype)
      exact ⟨e', he', hid⟩

theorem AliasEnds.ends {es : List (Element Node Nat Nat)} {e : Element Node Nat Nat} (h : AliasEnds es e) :
    Ends (AliasRefersTo es) e := by
  induction h with
  | other hno => exact .intro fun e' h => absurd h.1 hno
  | follow _ _ ih => exact .intro fun e' h => ih e' h.2.1 h.2.2

/-- It is enough that every alias ends. -/
theorem AliasChainsEnd.of_ends {es : List (Element Node Nat Nat)} (h : ∀ e ∈ es, e.IsAlias → AliasEnds es e) :
    AliasChainsEnd es where
  ends := h
  acyclic e he htag := (h e he (by simp [Element.IsAlias, htag])).ends.not_leadsBack

end

section
variable {Node : Type} [DecidableEq Node] {tu : TranslationUnit Node} {starts : List Node}

/-! ## The elements of aliases -/

variable (tu) in
/-- The `Typedef` element of the typedef `n`. -/
def typedefElement (n : Node) (c : Bool) : SymElement Node := ⟨"Typedef", attrsOf (typedefAttributes tu n c)⟩

theorem nodeElements_typedef {n : Node} (c : Bool) (hcode : tu.treeCode n = .typeDecl) :
    nodeElements tu (n, c) = [typedefElement tu n c] := by
  simp [nodeElements, nodeEntry, hcode, Entry.elements, typedefElement]

/-- The element of a node is an alias only for a typedef or a variant. -/
theorem isAlias_nodeElements {d : Node × Bool} {e : SymElement Node} (he : e ∈ nodeElements tu d) (h : e.IsAlias) :
    tu.treeCode d.1 = .typeDecl ∨ ¬ PrintsOwnId tu d.1 := by
  by_contra hno
  rw [not_or, not_not] at hno
  obtain ⟨hcode, hown⟩ := hno
  obtain ⟨entry, hentry, he⟩ := List.mem_flatMap.mp he
  have hentry : nodeEntry tu d.1 d.2 = some entry := Option.mem_toList.mp hentry
  have hshape := nodeEntry_shape tu hentry
  rcases List.mem_cons.mp he with rfl | he
  · have hmain : ∀ e, mainVariantEntry tu d.1 d.2 = some e → ¬ e.element.IsAlias := by
      intro e he
      unfold mainVariantEntry at he
      split at he <;> cases he
      -- structs and unions, whose tag depends on the key
      case h_1 | h_2 | h_3 =>
        have hrecord : ∀ tag ∈ recordTags, tag ∉ ["Typedef", "CvQualifiedType"] := by decide
        exact hrecord _ (recordTag_mem_recordTags tu d.1)
      all_goals simp [Element.IsAlias]
    unfold nodeEntry at hentry
    unfold PrintsOwnId at hown
    split at hentry <;> rename_i hc <;> simp only [hc, TreeCode.isCvType, forall_const] at hown
    case h_1 =>
      cases hentry
      revert h
      split <;> simp [Element.IsAlias]
    -- a typedef is an alias by its code
    case h_2 => exact hcode hc
    case h_3 =>
      cases hentry
      have hfunction : ∀ tag ∈ functionTags, tag ∉ ["Typedef", "CvQualifiedType"] := by decide
      exact hfunction _ (functionShape_tag_mem_functionTags tu d.1) h
    -- variables, fields and what has no element of its own
    case h_4 | h_5 | h_22 =>
      cases hentry
      simp [Element.IsAlias] at h
    all_goals
      rw [if_pos hown] at hentry
      exact hmain entry hentry h
  · -- a child is an argument, an ellipsis, a base or an enumerator
    obtain ⟨child, hchild, rfl⟩ := List.mem_map.mp he
    have hchildTags : ∀ tag ∈ topLevelTags, ∀ t ∈ childTags tag, t ∉ ["Typedef", "CvQualifiedType"] := by decide
    exact hchildTags _ hshape.tag _ (hshape.children child hchild).2 h

/-- **The aliases of the document** are the elements of typedefs and of variants. -/
theorem PhasesEnd.isAlias_cases {s₁ s₂ : DumpInfo Node} (h : PhasesEnd tu starts s₁ s₂) {e : Element Node Nat Nat}
    (he : e ∈ GccXml.elements (finishDump s₂).file) (halias : e.IsAlias) :
    ∃ d ∈ s₂.dumped, (tu.treeCode d.1 = .typeDecl ∧ e = s₂.fillElement (typedefElement tu d.1 d.2)) ∨
      (¬ PrintsOwnId tu d.1 ∧ idrefSuffix tu d.1 ≠ Quals.none ∧ e = s₂.fillElement (cvElement tu d.1)) := by
  rcases h.mem_elements.mp he with rfl | ⟨d, hd, e', he', rfl⟩ | ⟨f, -, rfl⟩
  · simp [Element.IsAlias, rootElement] at halias
  · refine ⟨d, hd, ?_⟩
    rcases isAlias_nodeElements he' halias with hcode | hown
    · rw [nodeElements_typedef d.2 hcode, List.mem_singleton] at he'
      exact Or.inl ⟨hcode, by rw [he']⟩
    · rw [nodeElements_variant d.2 hown] at he'
      split at he'
      · rename_i hsuffix
        rw [List.mem_singleton] at he'
        exact Or.inr ⟨hown, hsuffix, by rw [he']⟩
      · exact absurd he' List.not_mem_nil
  · simp [Element.IsAlias, fileElement] at halias

/-- The `type` of a typedef is the reference to its target. -/
theorem type_typedefElement (s : DumpInfo Node) (n : Node) (c : Bool) :
    (s.fillElement (typedefElement tu n c)).attr? "type" = some [.typeId (tu.typedefTarget n)
      (s.indexOf (idrefBase tu (tu.typedefTarget n))) (idrefSuffix tu (tu.typedefTarget n))] := by
  have htype : (attrsOf (typedefAttributes tu n c)).find? (fun a => a.1 = "type") =
      some ("type", [typeRef tu (tu.typedefTarget n)]) := by
    simp [typedefAttributes, xmlPrintIdAttribute, xmlPrintNameAttribute, xmlPrintTypeAttribute,
      attrsOf_of_fragsOf_nil (fragsOf_xmlPrintTypeIdref tu _ _)]
  simp only [DumpInfo.fillElement, Element.fill, Element.attr?, typedefElement, List.find?_map, Function.comp_def, htype]
  rfl

/-- The `type` of a variant is the id that its own id is made of. -/
theorem type_cvElement (s : DumpInfo Node) (n : Node) :
    (s.fillElement (cvElement tu n)).attr? "type" = some [.id (s.indexOf (idrefBase tu n))] := rfl

theorem refersTo_typedefElement {s : DumpInfo Node} {n : Node} {c : Bool} {e : Element Node Nat Nat} :
    RefersTo (s.fillElement (typedefElement tu n c)) e ↔ e.idText =
      some (refText (s.indexOf (idrefBase tu (tu.typedefTarget n))) (idrefSuffix tu (tu.typedefTarget n))) := by
  unfold RefersTo
  simp [type_typedefElement, valueText, Piece.text]

theorem refersTo_cvElement {s : DumpInfo Node} {n : Node} {e : Element Node Nat Nat} :
    RefersTo (s.fillElement (cvElement tu n)) e ↔
      e.idText = some (refText (s.indexOf (idrefBase tu n)) Quals.none) := by
  unfold RefersTo
  simp [type_cvElement, valueText, Piece.text]

/-- An element with the id of `b` is one of `b`; it is an alias if and only if `b` is a typedef. -/
theorem PhasesEnd.typedef_of_idText {s₁ s₂ : DumpInfo Node} (h : PhasesEnd tu starts s₁ s₂) {e : Element Node Nat Nat}
    (he : e ∈ GccXml.elements (finishDump s₂).file) {b : Node} (hb : s₂.index b ≠ 0)
    (hid : e.idText = some (refText (s₂.index b) Quals.none)) :
    (e.IsAlias → tu.treeCode b = .typeDecl) ∧
      (tu.treeCode b = .typeDecl → ∃ c, e = s₂.fillElement (typedefElement tu b c)) := by
  rcases h.mem_elements.mp he with rfl | ⟨d, hd, e', he', rfl⟩ | ⟨f, -, rfl⟩
  · have hroot : (rootElement tu).idText = none := by
      unfold Element.idText Element.attr? rootElement
      cases tu.gccxmlVersionFull <;> rfl
    rw [hroot] at hid
    cases hid
  · -- the node of the element has the index of `b`
    have hmem := List.mem_filterMap.mpr ⟨s₂.fillElement e', List.mem_map.mpr ⟨e', he', rfl⟩, hid⟩
    rw [idTexts_nodeElements, Option.mem_toList, idTextOf_eq_iff h.running.1.coherent hb, elementId_none_iff] at hmem
    obtain ⟨hown, hdb⟩ := hmem
    have hdb : b = d.1 := Option.some.inj hdb
    subst hdb
    refine ⟨fun halias => (isAlias_nodeElements he' halias).resolve_right (not_not.mpr hown), fun hcode => ?_⟩
    rw [nodeElements_typedef d.2 hcode, List.mem_singleton] at he'
    exact ⟨d.2, by rw [he']⟩
  · have hfile : (fileElement f : Element Node Nat Nat).idText = some (fileText f.2) := by
      have hattr : (fileElement f : Element Node Nat Nat).attr? "id" = some [.file f.2] := Element.attr?_of_head rfl
      rw [Element.idText, hattr]
      simp [valueText, Piece.text]
    rw [hfile] at hid
    exact absurd (Option.some.inj hid).symm (refText_ne_fileText _ _ _)

/-- An element whose id has a suffix is that of a variant. -/
theorem PhasesEnd.cv_element {s₁ s₂ : DumpInfo Node} (h : PhasesEnd tu starts s₁ s₂) {e : Element Node Nat Nat}
    (he : e ∈ GccXml.elements (finishDump s₂).file) {i : Nat} {q : Quals} (hq : q ≠ Quals.none)
    (hid : e.idText = some (refText i q)) :
    ∃ r c, Reached tu starts r c ∧ ¬ PrintsOwnId tu r ∧ idrefSuffix tu r = q ∧ s₂.indexOf (idrefBase tu r) = i ∧
      e = s₂.fillElement (cvElement tu r) := by
  rcases h.idText_cases he hid with ⟨d, -, -, heq⟩ | ⟨d, hd, hown, -, he, heq⟩ | ⟨f, heq⟩
  · exact absurd (refText_inj.mp heq).2 hq
  · obtain ⟨hindex, hsuffix⟩ := refText_inj.mp heq
    exact ⟨d.1, d.2, h.running.1.onlyReached.dumped d hd, hown, hsuffix.symm, hindex.symm, he⟩
  · exact absurd heq (refText_ne_fileText _ _ _)

/-- A typedef that is reached has an element. -/
theorem PhasesEnd.typedef_mem {s₁ s₂ : DumpInfo Node} (h : PhasesEnd tu starts s₁ s₂) {n : Node} {c : Bool}
    (hn : Reached tu starts n c) (hcode : tu.treeCode n = .typeDecl) :
    ∃ c', s₂.fillElement (typedefElement tu n c') ∈ GccXml.elements (finishDump s₂).file := by
  have hd := h.printed (h.reached hn).1
  refine ⟨s₂.complete n, h.mem_elements.mpr (Or.inr (Or.inl ⟨_, hd, _, ?_, rfl⟩))⟩
  rw [nodeElements_typedef _ hcode]
  exact List.mem_singleton_self _

/-- A variant that is reached has an element, if it is referred to with a suffix. -/
theorem PhasesEnd.cv_mem {s₁ s₂ : DumpInfo Node} (h : PhasesEnd tu starts s₁ s₂) {r : Node} {c : Bool}
    (hr : Reached tu starts r c) (hown : ¬ PrintsOwnId tu r) (hsuffix : idrefSuffix tu r ≠ Quals.none) :
    s₂.fillElement (cvElement tu r) ∈ GccXml.elements (finishDump s₂).file := by
  have hd := h.printed (h.reached hr).1
  refine h.mem_elements.mpr (Or.inr (Or.inl ⟨_, hd, _, ?_, rfl⟩))
  rw [nodeElements_variant _ hown, if_pos hsuffix]
  exact List.mem_singleton_self _

theorem idText_cvElement (s : DumpInfo Node) (n : Node) :
    (s.fillElement (cvElement tu n)).idText = some (refText (s.indexOf (idrefBase tu n)) (idrefSuffix tu n)) := by
  have hid : (cvElement tu n).attr? "id" = some [.typeId n (idrefBase tu n) (idrefSuffix tu n)] :=
    Element.attr?_of_head rfl
  rw [idText_fillElement, hid]
  simp [valueText, Piece.fill, Piece.text]

theorem idText_typedefElement (s : DumpInfo Node) (n : Node) (c : Bool) :
    (s.fillElement (typedefElement tu n c)).idText = some (refText (s.index n) Quals.none) := by
  have hid : (typedefElement tu n c).attr? "id" = some [.id (some n)] := Element.attr?_of_head rfl
  rw [idText_fillElement, hid]
  simp [valueText, Piece.fill, Piece.text, indexOf]

/-! ## Chains in the graph -/

variable (tu) in
/-- The typedef `n` refers to the typedef `b`, by the name of its target. -/
def NamesAlias (n b : Node) : Prop :=
  tu.treeCode n = .typeDecl ∧ idrefBase tu (tu.typedefTarget n) = some b ∧ tu.treeCode b = .typeDecl

variable (tu starts) in
/-- A reference to `t` names a node that is printed under its own id, and with a suffix some node that is reached is
    printed as a variant with this id. -/
def AliasTargetPrinted (t : Node) : Prop :=
  ∃ b, idrefBase tu t = some b ∧ PrintsOwnId tu b ∧
    (idrefSuffix tu t ≠ Quals.none → ∃ r c, Reached tu starts r c ∧ ¬ PrintsOwnId tu r ∧ idrefBase tu r = some b ∧
      idrefSuffix tu r = idrefSuffix tu t)

variable (tu starts) in
/-- **What aliases refer to is printed**, for each typedef and each variant that is reached. -/
structure AliasTargetsPrinted : Prop where
  typedefs : ∀ n c, Reached tu starts n c → tu.treeCode n = .typeDecl →
    AliasTargetPrinted tu starts (tu.typedefTarget n)
  variants : ∀ r c, Reached tu starts r c → ¬ PrintsOwnId tu r → idrefSuffix tu r ≠ Quals.none →
    ∃ b, idrefBase tu r = some b ∧ PrintsOwnId tu b

/-- What a printed typedef names has an index. -/
theorem PhasesEnd.index_of_typedefTarget {s₁ s₂ : DumpInfo Node} (h : PhasesEnd tu starts s₁ s₂) {n b : Node} {c : Bool}
    (hn : Reached tu starts n c) (hcode : tu.treeCode n = .typeDecl)
    (hb : idrefBase tu (tu.typedefTarget n) = some b) : s₂.index b ≠ 0 := by
  have htypes : tu.typedefTarget n ∈ referencedTypes tu n := by simp [referencedTypes, hcode]
  exact h.index_of_idrefBase (h.printed (h.reached hn).1) htypes hb

/-- What a printed variant stands for has an index. -/
theorem PhasesEnd.index_of_variant {s₁ s₂ : DumpInfo Node} (h : PhasesEnd tu starts s₁ s₂) {r b : Node} {c : Bool}
    (hr : Reached tu starts r c) (hown : ¬ PrintsOwnId tu r) (hsuffix : idrefSuffix tu r ≠ Quals.none)
    (hb : idrefBase tu r = some b) : s₂.index b ≠ 0 := by
  have hmem : cvElement tu r ∈ nodeElements tu (r, s₂.complete r) := by
    rw [nodeElements_variant _ hown, if_pos hsuffix]
    exact List.mem_singleton_self _
  have hattr : ("type", [.id (idrefBase tu r)]) ∈ (cvElement tu r).attrs := by
    simp [cvElement, cvQualifiedTypeAttributes]
  have hknown := h.known (h.printed (h.reached hr).1) hmem hattr List.mem_cons_self
  exact hknown.1 b (by simp [Piece.node?, hb])

/-! ### The references of aliases -/

section
variable {s₁ s₂ : DumpInfo Node}

/-- When alias chains end, what aliases refer to is printed. -/
theorem PhasesEnd.aliasTargetsPrinted (h : PhasesEnd tu starts s₁ s₂)
    (hends : AliasChainsEnd (GccXml.elements (finishDump s₂).file)) : AliasTargetsPrinted tu starts := by
  have hfollows : ∀ e ∈ GccXml.elements (finishDump s₂).file, e.IsAlias →
      ∃ e' ∈ GccXml.elements (finishDump s₂).file, RefersTo e e' := by
    intro e he halias
    cases hends.ends e he halias with
    | other hno => exact absurd halias hno
    | follow hex _ => exact hex
  -- a variant refers to its base, which is then printed under its own id
  have hvariants : ∀ r c, Reached tu starts r c → ¬ PrintsOwnId tu r → idrefSuffix tu r ≠ Quals.none →
      ∃ b, idrefBase tu r = some b ∧ s₂.index b ≠ 0 ∧ PrintsOwnId tu b := by
    intro r c hr hown hsuffix
    obtain ⟨e', he', href⟩ := hfollows _ (h.cv_mem hr hown hsuffix) (by simp [Element.IsAlias, DumpInfo.fillElement,
      Element.fill, cvElement])
    rw [refersTo_cvElement] at href
    exact h.own_of_idText (List.mem_filterMap.mpr ⟨e', he', href⟩)
  refine ⟨fun n c hn hcode => ?_, fun r c hr hown hsuffix => ?_⟩
  · obtain ⟨c', hmem⟩ := h.typedef_mem hn hcode
    obtain ⟨e', he', href⟩ := hfollows _ hmem (by simp [Element.IsAlias, DumpInfo.fillElement, Element.fill,
      typedefElement])
    rw [refersTo_typedefElement] at href
    by_cases hsuffix : idrefSuffix tu (tu.typedefTarget n) = Quals.none
    · rw [hsuffix] at href
      obtain ⟨b, hb, -, hown⟩ := h.own_of_idText (List.mem_filterMap.mpr ⟨e', he', href⟩)
      exact ⟨b, hb, hown, fun hne => absurd hsuffix hne⟩
    · -- the reference leads to the element of a variant, and this one to the same index
      obtain ⟨r, d, hr, hownr, hq, hindex, -⟩ := h.cv_element he' hsuffix href
      obtain ⟨b, hb, hb0, hown⟩ := hvariants r d hr hownr (hq ▸ hsuffix)
      have hbase : idrefBase tu (tu.typedefTarget n) = some b := by
        rw [hb] at hindex
        cases ht : idrefBase tu (tu.typedefTarget n) with
        | none => rw [ht] at hindex; exact absurd hindex hb0
        | some b' =>
            rw [ht] at hindex
            exact congrArg some (h.running.1.coherent.index_inj b b' hb0 hindex).symm
      exact ⟨b, hbase, hown, fun _ => ⟨r, d, hr, hownr, hb, hq⟩⟩
  · obtain ⟨b, hb, -, hownb⟩ := hvariants r c hr hown hsuffix
    exact ⟨b, hb, hownb⟩

/-- From an element of the typedef `n` to any of the typedef that it names. -/
theorem PhasesEnd.aliasRefersTo_step (h : PhasesEnd tu starts s₁ s₂) (hprinted : AliasTargetsPrinted tu starts)
    {n b : Node} {c cn : Bool} (hn : Reached tu starts n c) (hnb : NamesAlias tu n b) {eb : Element Node Nat Nat}
    (heb : eb ∈ GccXml.elements (finishDump s₂).file) (hid : eb.idText = some (refText (s₂.index b) Quals.none)) :
    Relation.TransGen (AliasRefersTo (GccXml.elements (finishDump s₂).file)) (s₂.fillElement (typedefElement tu n cn))
      eb := by
  obtain ⟨hcode, hbase, -⟩ := hnb
  have htypedef : (s₂.fillElement (typedefElement tu n cn)).IsAlias := List.mem_cons_self
  have hindex : s₂.indexOf (idrefBase tu (tu.typedefTarget n)) = s₂.index b := by rw [hbase]; rfl
  by_cases hsuffix : idrefSuffix tu (tu.typedefTarget n) = Quals.none
  · refine .single ⟨htypedef, heb, ?_⟩
    rw [refersTo_typedefElement, hindex, hsuffix, hid]
  · obtain ⟨b', hb', -, hcv⟩ := hprinted.typedefs n c hn hcode
    obtain ⟨r, d, hr, hown, hbr, hq⟩ := hcv hsuffix
    obtain rfl : b = b' := Option.some.inj (hbase.symm.trans hb')
    have hindexr : s₂.indexOf (idrefBase tu r) = s₂.index b := by rw [hbr]; rfl
    have hcvAlias : (s₂.fillElement (cvElement tu r)).IsAlias := List.mem_cons_of_mem _ List.mem_cons_self
    refine .tail (.single ⟨htypedef, h.cv_mem hr hown (hq ▸ hsuffix), ?_⟩) ⟨hcvAlias, heb, ?_⟩
    · rw [refersTo_typedefElement, idText_cvElement, hindex, hindexr, hq]
    · rw [refersTo_cvElement, hindexr, hid]

/-- The typedef that a reached typedef names is reached. -/
theorem PhasesEnd.reached_of_namesAlias (h : PhasesEnd tu starts s₁ s₂) {n b : Node} {c : Bool}
    (hn : Reached tu starts n c) (hnb : NamesAlias tu n b) : ∃ d, Reached tu starts b d :=
  (h.index_iff b).mp (h.index_of_typedefTarget hn hnb.1 hnb.2.1)

/-- When alias chains end, no typedef that is reached leads back to itself. -/
theorem PhasesEnd.not_leadsBack (h : PhasesEnd tu starts s₁ s₂)
    (hends : AliasChainsEnd (GccXml.elements (finishDump s₂).file)) {n : Node} {c : Bool}
    (hn : Reached tu starts n c) : ¬ LeadsBack (NamesAlias tu) n := by
  have hprinted := h.aliasTargetsPrinted hends
  have hpath : ∀ m, Relation.TransGen (NamesAlias tu) n m → (∃ d, Reached tu starts m d) ∧ ∀ cn, ∀ em ∈
      GccXml.elements (finishDump s₂).file, em.idText = some (refText (s₂.index m) Quals.none) →
        Relation.TransGen (AliasRefersTo (GccXml.elements (finishDump s₂).file))
          (s₂.fillElement (typedefElement tu n cn)) em := by
    intro m hm
    induction hm with
    | single hnb =>
        exact ⟨h.reached_of_namesAlias hn hnb, fun cn em hem hid => h.aliasRefersTo_step hprinted hn hnb hem hid⟩
    | @tail k m _ hkm ih =>
        obtain ⟨⟨d, hk⟩, hpath⟩ := ih
        refine ⟨h.reached_of_namesAlias hk hkm, fun cn em hem hid => ?_⟩
        obtain ⟨ck, hek⟩ := h.typedef_mem hk hkm.1
        exact (hpath cn _ hek (idText_typedefElement s₂ k ck)).trans (h.aliasRefersTo_step hprinted hk hkm hem hid)
  intro hback
  obtain ⟨_, hfirst, _⟩ := hback.next
  obtain ⟨cn, hen⟩ := h.typedef_mem hn hfirst.1
  exact hends.acyclic _ hen rfl ((hpath n hback).2 cn _ hen (idText_typedefElement s₂ n cn))

/-- An element of a variant ends where the elements of what it stands for end. -/
theorem PhasesEnd.cvElement_ends (h : PhasesEnd tu starts s₁ s₂) {r b : Node} (hb : s₂.index b ≠ 0)
    (hown : PrintsOwnId tu b) (hbase : s₂.indexOf (idrefBase tu r) = s₂.index b)
    (hends : ∀ e ∈ GccXml.elements (finishDump s₂).file, e.idText = some (refText (s₂.index b) Quals.none) →
      AliasEnds (GccXml.elements (finishDump s₂).file) e) :
    AliasEnds (GccXml.elements (finishDump s₂).file) (s₂.fillElement (cvElement tu r)) := by
  refine .follow ?_ fun e he href => ?_
  · obtain ⟨e, he, hid⟩ := h.exists_own (h.printed hb) hown
    refine ⟨e, he, ?_⟩
    rw [refersTo_cvElement, hbase]
    exact hid
  · rw [refersTo_cvElement, hbase] at href
    exact hends e he href

/-- The elements of a node end, if the node does and what aliases refer to is printed. -/
theorem PhasesEnd.own_ends (h : PhasesEnd tu starts s₁ s₂) (hprinted : AliasTargetsPrinted tu starts) {b : Node}
    (hend : Ends (fun n b => (∃ c, Reached tu starts n c) ∧ NamesAlias tu n b) b) (hb : s₂.index b ≠ 0) :
    ∀ e ∈ GccXml.elements (finishDump s₂).file, e.idText = some (refText (s₂.index b) Quals.none) →
      AliasEnds (GccXml.elements (finishDump s₂).file) e := by
  induction hend with
  | intro n _ ih =>
      intro e he hid
      obtain ⟨halias, htypedef⟩ := h.typedef_of_idText he hb hid
      by_cases hcode : tu.treeCode n = .typeDecl
      · obtain ⟨c, hn⟩ := (h.index_iff n).mp hb
        obtain ⟨cn, rfl⟩ := htypedef hcode
        obtain ⟨b, hbase, hown, hcv⟩ := hprinted.typedefs n c hn hcode
        have hb0 : s₂.index b ≠ 0 := h.index_of_typedefTarget hn hcode hbase
        have hindex : s₂.indexOf (idrefBase tu (tu.typedefTarget n)) = s₂.index b := by rw [hbase]; rfl
        -- what the typedef names is a typedef, which the induction is for, or ends the chain
        have hnext : ∀ e ∈ GccXml.elements (finishDump s₂).file,
            e.idText = some (refText (s₂.index b) Quals.none) →
            AliasEnds (GccXml.elements (finishDump s₂).file) e := by
          intro e' he' hid'
          by_cases hcodeb : tu.treeCode b = .typeDecl
          · exact ih b ⟨⟨c, hn⟩, hcode, hbase, hcodeb⟩ hb0 e' he' hid'
          · exact .other fun halias' => hcodeb ((h.typedef_of_idText he' hb0 hid').1 halias')
        by_cases hsuffix : idrefSuffix tu (tu.typedefTarget n) = Quals.none
        · refine .follow ?_ fun e' he' href => ?_
          · obtain ⟨e', he', hid'⟩ := h.exists_own (h.printed hb0) hown
            refine ⟨e', he', ?_⟩
            rw [refersTo_typedefElement, hindex, hsuffix]
            exact hid'
          · rw [refersTo_typedefElement, hindex, hsuffix] at href
            exact hnext e' he' href
        · refine .follow ?_ fun e' he' href => ?_
          · obtain ⟨r, d, hr, hownr, hbr, hq⟩ := hcv hsuffix
            have hindexr : s₂.indexOf (idrefBase tu r) = s₂.index b := by rw [hbr]; rfl
            refine ⟨_, h.cv_mem hr hownr (hq ▸ hsuffix), ?_⟩
            rw [refersTo_typedefElement, idText_cvElement, hindex, hindexr, hq]
          · rw [refersTo_typedefElement, hindex] at href
            obtain ⟨r, d, hr, hownr, hq, hindexr, rfl⟩ := h.cv_element he' hsuffix href
            exact h.cvElement_ends hb0 hown hindexr hnext
      · exact .other fun h' => hcode (halias h')

/-- When what aliases refer to is printed and no typedef that is reached leads back to itself, alias chains end. -/
theorem PhasesEnd.aliasChainsEnd (h : PhasesEnd tu starts s₁ s₂) (hprinted : AliasTargetsPrinted tu starts)
    (hacyclic : ∀ n c, Reached tu starts n c → tu.treeCode n = .typeDecl → ¬ LeadsBack (NamesAlias tu) n) :
    AliasChainsEnd (GccXml.elements (finishDump s₂).file) := by
  have hfintype : Fintype Node := ⟨tu.nodes.toFinset, fun n => List.mem_toFinset.mpr (tu.mem_nodes n)⟩
  have hfinite : Finite Node := inferInstance
  have hend : ∀ n, Ends (fun n b => (∃ c, Reached tu starts n c) ∧ NamesAlias tu n b) n := by
    refine ends_of_finite fun n hback => ?_
    obtain ⟨b, ⟨⟨c, hn⟩, hnb⟩, -⟩ := hback.next
    exact hacyclic n c hn hnb.1 (Relation.TransGen.mono (fun _ _ h => h.2) n n hback)
  refine .of_ends fun e he halias => ?_
  obtain ⟨d, hd, ⟨-, rfl⟩ | ⟨hown, hsuffix, rfl⟩⟩ := h.isAlias_cases he halias
  · have hreached := h.running.1.onlyReached.dumped d hd
    exact h.own_ends hprinted (hend d.1) (h.reached hreached).1 _ he (idText_typedefElement s₂ d.1 d.2)
  · have hreached := h.running.1.onlyReached.dumped d hd
    obtain ⟨b, hbase, hownb⟩ := hprinted.variants d.1 d.2 hreached hown hsuffix
    have hb0 : s₂.index b ≠ 0 := h.index_of_variant hreached hown hsuffix hbase
    have hindex : s₂.indexOf (idrefBase tu d.1) = s₂.index b := by rw [hbase]; rfl
    exact h.cvElement_ends hb0 hownb hindex (h.own_ends hprinted (hend b) hb0)

theorem PhasesEnd.aliasChainsEnd_iff (h : PhasesEnd tu starts s₁ s₂) :
    AliasChainsEnd (GccXml.elements (finishDump s₂).file) ↔ AliasTargetsPrinted tu starts ∧
      ∀ n c, Reached tu starts n c → tu.treeCode n = .typeDecl → ¬ LeadsBack (NamesAlias tu) n :=
  ⟨fun hends => ⟨h.aliasTargetsPrinted hends, fun _ _ hn _ => h.not_leadsBack hends hn⟩,
    fun ⟨hprinted, hacyclic⟩ => h.aliasChainsEnd hprinted hacyclic⟩

end

/-! ## Typedefs that name their own type -/

/-- The codes of the types whose declarations `xml_add_type_decl` tests before it adds them. -/
def testedCodes : List TreeCode :=
  [.arrayType, .langType, .pointerType, .referenceType, .integerType, .voidType, .booleanType, .realType, .complexType,
    .functionType, .typenameType, .templateTypeParm, .enumeralType, .unionType, .qualUnionType, .recordType]

variable (tu) in
/-- The declaration `n`, without a `DECL_ORIGINAL_TYPE`, is the `TYPE_NAME` of its own `TREE_TYPE`. -/
def NamesItself (n : Node) : Prop :=
  tu.treeCode n = .typeDecl ∧ (tu.tree n).declOriginalType = none ∧
    (tu.tree (tu.treeType n)).typeName = some n

variable (tu) in
/-- From a typedef with a `DECL_ORIGINAL_TYPE` to the `TYPE_NAME` of this type or of its main variant. -/
def OriginalStep (n name : Node) : Prop :=
  tu.treeCode n = .typeDecl ∧ ∃ t, (tu.tree n).declOriginalType = some t ∧
    ((tu.tree t).typeName = some name ∨ (tu.tree (tu.typeMainVariant t)).typeName = some name)

variable (tu) in
/-- **The typedefs of the unit are well-founded**: going from a typedef to the name of its original type ends, and the
    name of the type of a declaration without an original type is the declaration of this type. Names are no records,
    and what a type is answered with is no typedef. -/
structure TypedefsWellFounded : Prop where
  original : WellFounded fun name n => OriginalStep tu n name
  own : ∀ n, tu.treeCode n = .typeDecl → (tu.tree n).declOriginalType = none →
    ∀ name ∈ (tu.tree (tu.treeType n)).typeName, NamesItself tu name
  names : ∀ t, ∀ name ∈ (tu.tree t).typeName, tu.treeCode name ≠ .recordType
  types : ∀ n, tu.treeCode n = .typeDecl → ∀ b ∈ answer tu (tu.typeMainVariant (tu.typedefTarget n)),
    tu.treeCode b ≠ .typeDecl

/-- What is reached answers a request for itself. -/
theorem Reached.answer {n : Node} {c : Bool} (h : Reached tu starts n c) : GccXml.answer tu n = some n := by
  cases h with
  | start _ hr => exact answer_of_registered hr
  | issued _ _ hr => exact answer_of_registered hr

/-- A declaration that names its own type is reached only past the tests of `xml_add_type_decl`. -/
theorem NamesItself.not_tested {n : Node} (h : NamesItself tu n) (hanswer : GccXml.answer tu n = some n) :
    tu.treeCode (tu.treeType n) ∉ testedCodes := by
  obtain ⟨hcode, horiginal, hname⟩ := h
  -- `xml_add_typedef` asks for the original type of `n`, which is `n` again, and declines
  have hself : ∀ c, (xmlAddTypedef tu (xmlAddNode tu) n c).value = none := by
    intro c
    unfold xmlAddTypedef
    rw [if_pos ⟨horiginal, by simp [hname]⟩]
    rfl
  intro htested
  rw [answer_eq n false] at hanswer
  unfold xmlAddNodeBody at hanswer
  split at hanswer
  · simp at hanswer
  split at hanswer
  · simp at hanswer
  simp only [hcode] at hanswer
  unfold xmlAddTypeDecl at hanswer
  dsimp only at hanswer
  split at hanswer
  case h_17 hnot =>
    -- every other code is not among the tested ones
    simp only [testedCodes, List.mem_cons, List.not_mem_nil, or_false] at htested
    rcases htested with h | h | h | h | h | h | h | h | h | h | h | h | h | h | h | h <;> simp_all
  case h_13 | h_14 | h_15 | h_16 =>
    -- classes and enumerations, where the declaration may define its type
    rename_i htype
    split at hanswer
    · rw [hself] at hanswer
      cases hanswer
    · rename_i hp
      split at hanswer
      · -- a definition is answered with its type
        have hclass : (tu.treeCode (tu.treeType n)).isClassOrEnum = true := by simp [htype, TreeCode.isClassOrEnum]
        have heq := answer_classOrEnum hclass (by simpa using hp) hanswer
        rw [heq, hcode] at htype
        cases htype
      · rw [hself] at hanswer
        cases hanswer
  all_goals
    rw [hself] at hanswer
    cases hanswer

/-- A typedef that is named is the `TYPE_NAME` of the target. -/
theorem NamesAlias.typeName {n b : Node} (h : NamesAlias tu n b) (hwf : TypedefsWellFounded tu) :
    (tu.tree (tu.typedefTarget n)).typeName = some b := by
  obtain ⟨hcode, hbase, hcodeb⟩ := h
  have htype : answer tu (tu.typeMainVariant (tu.typedefTarget n)) ≠ some b := fun ha => hwf.types n hcode b ha hcodeb
  unfold idrefBase at hbase
  split at hbase
  · rename_i name hname
    split at hbase
    · rcases standsFor_of_answer hbase with rfl | hdefines | ⟨hp, -⟩
      · exact hname
      · -- a declaration that defines a type is answered with this type
        have hclass := hdefines.2.2.2.1
        rw [hcodeb] at hclass
        cases hclass
      · have hrecord : tu.treeCode name = .recordType := by
          simp only [TreeGraph.typePtrmemfuncP, Bool.and_eq_true] at hp
          simpa using hp.1
        exact absurd hrecord (hwf.names _ name hname)
    · exact absurd hbase htype
  · exact absurd hbase htype

/-- In a unit with well-founded typedefs, alias chains are broken only by a declaration that names its own type. -/
theorem PhasesEnd.acyclic_iff {s₁ s₂ : DumpInfo Node} (h : PhasesEnd tu starts s₁ s₂) (hwf : TypedefsWellFounded tu) :
    (∀ n c, Reached tu starts n c → tu.treeCode n = .typeDecl → ¬ LeadsBack (NamesAlias tu) n) ↔
      ∀ n c, Reached tu starts n c → ¬ NamesItself tu n := by
  constructor
  · intro hacyclic n c hn hself
    have htarget : tu.typedefTarget n = tu.treeType n := by simp [TreeGraph.typedefTarget, hself.2.1]
    have hbase : idrefBase tu (tu.typedefTarget n) = some n := by
      rw [htarget]
      simp [idrefBase, hself.2.2, hn.answer]
    exact hacyclic n c hn hself.1 (.single ⟨hself.1, hbase, hself.1⟩)
  · intro hself
    have hends : ∀ n, ∀ c, Reached tu starts n c → Ends (NamesAlias tu) n := by
      intro n
      induction n using hwf.original.induction with
      | _ n ih =>
          intro c hn
          refine .intro fun b hnb => ?_
          obtain ⟨d, hb⟩ := h.reached_of_namesAlias hn hnb
          have hname := hnb.typeName hwf
          cases horiginal : (tu.tree n).declOriginalType with
          | none =>
              have htarget : tu.typedefTarget n = tu.treeType n := by simp [TreeGraph.typedefTarget, horiginal]
              rw [htarget] at hname
              exact absurd (hwf.own n hnb.1 horiginal b hname) (hself b d hb)
          | some t =>
              have htarget : tu.typedefTarget n = t := by simp [TreeGraph.typedefTarget, horiginal]
              rw [htarget] at hname
              exact ih b ⟨hnb.1, t, horiginal, Or.inl hname⟩ d hb
    exact fun n c hn _ => (hends n c hn).not_leadsBack

/-- **When alias chains end.** Every run ends. In its document alias chains end if and only if what aliases refer to is
    printed and no typedef that is reached leads back to itself. In a unit with well-founded typedefs, the only typedefs
    that do so are declarations that name their own type; these are reached only if `xml_add_type_decl` has no test
    for the code of this type. -/
theorem aliasChainsEnd_iff_targetsPrinted (tu : TranslationUnit Node) (starts : List Node) :
    ∃ s, (∀ fuel, 2 * tu.nodes.length ≤ fuel → doXmlOutput tu starts fuel = some s) ∧
      (AliasChainsEnd (GccXml.elements s.file) ↔ AliasTargetsPrinted tu starts ∧
        ∀ n c, Reached tu starts n c → tu.treeCode n = .typeDecl → ¬ LeadsBack (NamesAlias tu) n) ∧
      (TypedefsWellFounded tu → (AliasChainsEnd (GccXml.elements s.file) ↔ AliasTargetsPrinted tu starts ∧
        ∀ n c, Reached tu starts n c → ¬ NamesItself tu n)) ∧
      (∀ n c, Reached tu starts n c → NamesItself tu n → tu.treeCode (tu.treeType n) ∉ testedCodes) := by
  obtain ⟨s₁, s₂, h, -⟩ := exists_phasesEnd tu starts
  refine ⟨finishDump s₂, fun fuel hf => (h.doXmlOutput hf).2, h.aliasChainsEnd_iff, fun hwf => ?_, ?_⟩
  · rw [h.aliasChainsEnd_iff, h.acyclic_iff hwf]
  · intro n c hn hself
    exact hself.not_tested hn.answer

end

/-! ### A typedef of a qualified vector type

The unit is `typedef int v4si __attribute__((vector_size(16))); typedef const v4si CV;`. Both declarations have a
`DECL_ORIGINAL_TYPE`, and the target of `CV` is named by `v4si` with the suffix `c`. `VECTOR_TYPE` is not among the
codes for which `xml_dump_tree_node` prints the `CvQualifiedType` with this id. -/

/-- The nodes of the example, in the order of their addresses. -/
def constVectorTypedef : TranslationUnit (Fin 8) where
  globalNamespace := 0
  tree
    | 0 => { code := .namespaceDecl, declName := some "::" }
    | 1 => { code := .typeDecl, declName := some "CV", declContext := some 0, treeType := some 6
             declOriginalType := some 2 }
    | 2 => { code := .vectorType, treeType := some 7, mainVariant := some 3, typeName := some 4
             cpTypeQuals := { isConst := true } }
    | 3 => { code := .vectorType, treeType := some 7 }
    | 4 => { code := .typeDecl, declName := some "v4si", declContext := some 0, treeType := some 5
             declOriginalType := some 3 }
    | 5 => { code := .vectorType, treeType := some 7, mainVariant := some 3, typeName := some 4 }
    | 6 => { code := .vectorType, treeType := some 7, mainVariant := some 3, typeName := some 1
             cpTypeQuals := { isConst := true } }
    | _ => { code := .integerType }
  nodes := List.finRange 8
  mem_nodes := List.mem_finRange
  address := Fin.val
  nodes_sorted := by decide
  rank
    | 1 | 4 => 1
    | _ => 0
  rank_lt := by decide

/-- Only the target of `CV` is named, by `v4si`. -/
theorem originalStep_constVectorTypedef {n name : Fin 8} (h : OriginalStep constVectorTypedef n name) :
    n = 1 ∧ name = 4 := by
  obtain ⟨hcode, t, ht, hname⟩ := h
  revert hcode ht hname
  revert n name t
  decide

/-- The typedefs of `constVectorTypedef` are well-founded, and no element has the id that the `Typedef` of `CV` refers
to. -/
theorem not_aliasChainsEnd_constVectorTypedef :
    TypedefsWellFounded constVectorTypedef ∧
      ∃ s, doXmlOutput constVectorTypedef [1] 16 = some s ∧ ¬ AliasChainsEnd (GccXml.elements s.file) := by
  have hleaf : Acc (fun name n => OriginalStep constVectorTypedef n name) 4 := by
    refine .intro 4 fun name h => ?_
    exact absurd (originalStep_constVectorTypedef h).1 (by decide)
  have hall : ∀ n, Acc (fun name n => OriginalStep constVectorTypedef n name) n := by
    refine fun n => .intro n fun name h => ?_
    rw [(originalStep_constVectorTypedef h).2]
    exact hleaf
  refine ⟨⟨⟨hall⟩, ?_, by decide, by decide⟩, _, rfl, fun h => ?_⟩
  · unfold NamesItself
    decide
  · exact absurd h.exists_idText (by decide)

end GccXml
