import GccXml.Xml.Answer
import GccXml.Xml.References

namespace GccXml

/-! # `Xml.Members` — the members of a namespace

The `members` attribute of a namespace lists the answers to the requests for its bindings. What is bound but answered
with 0 is printed with the namespace as its context and is not listed: the functions of an overload set, and a type
whose only declaration is taken for a typedef that names its own type.

The attribute and the `context` attributes come from different sides. The list is made when the namespace is printed,
from the bindings of its names; a context is made when the member is printed, from the scope that the declaration
knows. So each side is brought to nodes first: the ids in the list are those of the answers that are not nothing, in
the order of the bindings (`listMember` leaves out the others), and an element has the context of its node.

An element belongs to one node, which is printed under its own id. How often the list has this id is how many of the
bindings are answered with the node, since indices are distinct. `MembersListed` says that it is one, for each node
that is described with the namespace as its context; and if the document is complete then every such node is there to
show it, which gives the other direction. -/

open DumpInfo

section
variable {Node ι φ : Type}

/-! ## The ids in an attribute -/

/-- The plain ids in the attribute `name`. -/
def Element.ids (e : Element Node ι φ) (name : String) : List ι :=
  (attrRefs e.attrs).filterMap fun r => if r.1 = name then r.2.id? else none

/-- The element has an attribute `name`. -/
def Element.Has (e : Element Node ι φ) (name : String) : Prop := name ∈ e.attrs.map (·.1)

instance (e : Element Node ι φ) (name : String) : Decidable (e.Has name) := inferInstanceAs (Decidable (_ ∈ _))

/-- The tags of the elements that describe a function, a variable, a typedef, a class, a union, an enumeration or a
    namespace. -/
def describedTags : List String :=
  ["Function", "OperatorFunction", "Method", "OperatorMethod", "Constructor", "Destructor", "Converter", "Variable",
    "Typedef", "Class", "Struct", "Union", "Enumeration", "Namespace", "NamespaceAlias"]

/-- The codes of these. -/
def TreeCode.isDescribed : TreeCode → Bool
  | .functionDecl | .varDecl | .typeDecl | .recordType | .unionType | .qualUnionType | .enumeralType
  | .namespaceDecl => true
  | _ => false

end

section
variable {Node : Type} [DecidableEq Node] (tu : TranslationUnit Node)

/-- The declaration whose context is printed for `n`: that of a class or an enumeration is its name. -/
def contextDecl (n : Node) : Node := if (tu.treeCode n).isClassOrEnum then tu.typeNameOf n else n

/-! ## The context of an element -/

omit [DecidableEq Node] in
theorem ids_attrsOf (tag name : String) (p : Print Node Unit) :
    (⟨tag, attrsOf p⟩ : SymElement Node).ids name =
      (refsOf p).filterMap fun r => if r.1 = name then r.2.id? else none := rfl

omit [DecidableEq Node] in
theorem functionShape_tag (n : Node) : (functionShape tu n).tag ∈ describedTags ∧ (functionShape tu n).tag ≠ "Namespace" := by
  unfold functionShape
  dsimp only
  split
  · simp [describedTags]
  split
  · simp [describedTags]
  split
  · split
    · simp [describedTags]
    · split <;> simp [describedTags]
  · split <;> simp [describedTags]

omit [DecidableEq Node] in
theorem recordTag_mem (n : Node) : recordTag tu n ∈ describedTags ∧ recordTag tu n ≠ "Namespace" := by
  unfold recordTag
  split
  · split <;> simp [describedTags]
  · simp [describedTags]

/-- The element that is printed for `n` describes it if and only if its code is one of those described. -/
theorem tag_mem_describedTags {n : Node} {c : Bool} {e : SymEntry Node} (hown : PrintsOwnId tu n)
    (he : nodeEntry tu n c = some e) : e.element.tag ∈ describedTags ↔ (tu.treeCode n).isDescribed = true := by
  unfold PrintsOwnId at hown
  unfold nodeEntry at he
  split at he <;> rename_i hcode <;> simp only [hcode, TreeCode.isCvType, forall_const] at hown
  case h_1 =>
    cases Option.some.inj he
    split <;> simp [describedTags, hcode, TreeCode.isDescribed]
  case h_3 =>
    cases Option.some.inj he
    exact iff_of_true (functionShape_tag tu n).1 (by rw [hcode]; rfl)
  case h_2 | h_4 | h_5 =>
    cases Option.some.inj he
    simp [describedTags, hcode, TreeCode.isDescribed]
  case h_22 =>
    cases Option.some.inj he
    refine iff_of_false (by simp [describedTags]) fun hd => ?_
    unfold TreeCode.isDescribed at hd
    split at hd <;> rename_i hn <;> first | exact absurd hn (by assumption) | cases hd
  all_goals
    rw [if_pos hown] at he
    simp only [mainVariantEntry, hcode, Option.some.injEq] at he
    subst he
    rw [hcode]
  case h_6 | h_7 | h_8 => exact iff_of_true (recordTag_mem tu n).1 rfl
  all_goals simp [describedTags, TreeCode.isDescribed]

/-- Only a namespace that is not an alias is printed as `Namespace`. -/
theorem nodeEntry_namespace {n : Node} {c : Bool} {e : SymEntry Node} (he : nodeEntry tu n c = some e)
    (htag : e.element.tag = "Namespace") :
    tu.treeCode n = .namespaceDecl ∧ (tu.tree n).declNamespaceAlias = none ∧
      e.element = ⟨"Namespace", attrsOf (namespaceAttributes tu n c)⟩ := by
  unfold nodeEntry at he
  split at he <;> rename_i hcode
  case h_1 =>
    cases Option.some.inj he
    split at htag
    · rename_i halias
      rw [if_pos halias]
      exact ⟨hcode, halias, rfl⟩
    · simp at htag
  -- functions, whose tag comes from a table of their own
  case h_3 =>
    cases Option.some.inj he
    exact absurd htag (functionShape_tag tu n).2
  -- typedefs, variables, fields and what has no element of its own
  case h_2 | h_4 | h_5 | h_22 =>
    cases Option.some.inj he
    simp at htag
  all_goals
    split at he
    · simp only [mainVariantEntry, hcode, Option.some.injEq] at he
      subst he
      first
        | exact absurd htag (recordTag_mem tu n).2
        | simp at htag
    · unfold variantEntry at he
      split at he
      · cases Option.some.inj he
        simp at htag
      · cases he

/-- The `context` of an element that describes `n`. -/
theorem ids_context {n : Node} {c : Bool} {e : SymEntry Node} (hown : PrintsOwnId tu n)
    (he : nodeEntry tu n c = some e) (hd : (tu.treeCode n).isDescribed = true) :
    e.element.ids "context" = (contextTargets tu (contextDecl tu n)).map (answer tu) := by
  unfold PrintsOwnId at hown
  unfold nodeEntry at he
  split at he <;> rename_i hcode <;> simp only [hcode, TreeCode.isCvType, forall_const] at hown
  case h_1 =>
    cases Option.some.inj he
    split
    · rw [ids_attrsOf]
      cases c <;>
        simp [namespaceAttributes, List.filterMap_map, Piece.id?, contextDecl, hcode, TreeCode.isClassOrEnum]
    · rw [ids_attrsOf]
      simp [namespaceAliasAttributes, List.filterMap_map, Piece.id?, contextDecl, hcode, TreeCode.isClassOrEnum]
  case h_2 =>
    cases Option.some.inj he
    rw [ids_attrsOf]
    simp [typedefAttributes, List.filterMap_map, Piece.id?, contextDecl, hcode, TreeCode.isClassOrEnum]
  case h_3 =>
    cases Option.some.inj he
    rw [ids_attrsOf]
    cases hvirtual : (functionShape tu n).doVirtual <;> cases hv : (tu.tree n).declVirtualP <;>
      simp [functionAttributes, List.filterMap_map, Piece.id?, contextDecl, hcode, TreeCode.isClassOrEnum, hvirtual, hv,
        typeRef]
  case h_4 =>
    cases Option.some.inj he
    rw [ids_attrsOf]
    simp [varDeclAttributes, List.filterMap_map, Piece.id?, contextDecl, hcode, TreeCode.isClassOrEnum]
  -- fields and unimplemented codes are not described
  case h_5 | h_22 =>
    unfold TreeCode.isDescribed at hd
    split at hd <;> rename_i hn <;> first | exact absurd hn (by assumption) | (rw [hcode] at hn; cases hn) | cases hd
  all_goals
    rw [if_pos hown] at he
    simp only [mainVariantEntry, hcode, Option.some.injEq] at he
    subst he
  -- classes: the context is printed whether or not the members and the bases are
  case h_6 | h_7 | h_8 =>
    rw [ids_attrsOf]
    cases hmembers : c && (tu.tree n).completeTypeP <;> cases hbases : printedBases tu n c <;>
      simp [recordAttributes, List.filterMap_map, Piece.id?, contextDecl, hcode, TreeCode.isClassOrEnum, hmembers, hbases]
  case h_15 =>
    rw [ids_attrsOf]
    simp [enumeralTypeAttributes, List.filterMap_map, Piece.id?, contextDecl, hcode, TreeCode.isClassOrEnum]
  all_goals rw [hcode] at hd; cases hd

/-! ## The members of a namespace -/

theorem ids_members (n : Node) (c : Bool) :
    (⟨"Namespace", attrsOf (namespaceAttributes tu n c)⟩ : SymElement Node).ids "members" =
      if c then ((tu.allDecls n).filterMap (answer tu)).map some else [] := by
  rw [ids_attrsOf]
  cases c <;> simp [namespaceAttributes, List.filterMap_map, Piece.id?]

/-- Only a complete namespace has a `members` attribute. -/
theorem has_members {n : Node} {c : Bool} :
    (⟨"Namespace", attrsOf (namespaceAttributes tu n c)⟩ : SymElement Node).Has "members" ↔ c = true := by
  constructor
  · intro h
    cases c with
    | true => rfl
    | false =>
        have hblock : AttrBlock ["id", "name", "context", "access", "attributes", "mangled", "demangled"]
            (namespaceAttributes tu n false) :=
          .seq (xmlPrintIdAttribute_block n) <| .seq (.when (xmlPrintNameAttribute_block _)) <|
            .seq (xmlPrintContextAttribute_block tu n) <| .seq (xmlPrintAttributesAttribute_block _ _) <|
            .seq (.nothing []) <| .seq (xmlPrintMangledAttribute_block tu n) <| xmlPrintDemangledAttribute_block tu n
        exact absurd (hblock.names.subset h) (by decide)
  · rintro rfl
    unfold Element.Has
    simp [namespaceAttributes, attrsOf_xmlPrintNamespaceMembers]

end

/-! ## The elements of the document -/

section
variable {Node : Type} [DecidableEq Node] {tu : TranslationUnit Node} {starts : List Node}

omit [DecidableEq Node] in
theorem ids_fillElement (s : DumpInfo Node) (e : SymElement Node) (name : String) :
    (s.fillElement e).ids name = (e.ids name).map s.indexOf := by
  unfold Element.ids
  rw [attrRefs_fillElement, List.filterMap_map, List.map_filterMap]
  refine List.filterMap_congr fun r _ => ?_
  show (if r.1 = name then (r.2.fill s.indexOf s.fileIndexOf).id? else none) = _
  split
  · exact id?_fill s r.2
  · rfl

omit [DecidableEq Node] in
theorem has_fillElement (s : DumpInfo Node) (e : SymElement Node) (name : String) :
    (s.fillElement e).Has name ↔ e.Has name := by
  simp [Element.Has, fillElement, Element.fill]

/-- A node that is reached answers a request for itself. -/
theorem Reached.answer_self {n : Node} {c : Bool} (h : Reached tu starts n c) : answer tu n = some n := by
  cases h with
  | start _ hr => exact answer_of_registered hr
  | issued _ _ hr => exact answer_of_registered hr

/-- The element of a node printed under its own id. -/
theorem PhasesEnd.exists_own_element {s₁ s₂ : DumpInfo Node} (h : PhasesEnd tu starts s₁ s₂) {d : Node × Bool}
    (hd : d ∈ s₂.dumped) {entry : SymEntry Node} (hentry : nodeEntry tu d.1 d.2 = some entry)
    (hown : PrintsOwnId tu d.1) :
    s₂.fillElement entry.element ∈ GccXml.elements (finishDump s₂).file ∧
      (s₂.fillElement entry.element).idText = some (refText (s₂.index d.1) Quals.none) := by
  have hels : nodeElements tu d = entry.elements := by simp [nodeElements, hentry]
  obtain ⟨e, rest, hels', hid, -⟩ := nodeElements_own d.2 hown
  have he : e = entry.element := by
    have hcons : e :: rest = entry.elements := hels'.symm.trans hels
    exact (List.cons.inj hcons).1
  subst he
  refine ⟨h.mem_elements.mpr (Or.inr (Or.inl ⟨d, hd, _, ?_, rfl⟩)), ?_⟩
  · rw [hels]; exact List.mem_cons_self
  · rw [idText_fillElement, hid]
    simp [valueText, Piece.fill, Piece.text, indexOf]

/-- The variants of a node that has no own id have another id than every node. -/
theorem idText_variant_ne {s : DumpInfo Node} {d : Node × Bool} (hown : ¬ PrintsOwnId tu d.1) {e : SymElement Node}
    (he : e ∈ nodeElements tu d) (i : Nat) : (s.fillElement e).idText ≠ some (refText i Quals.none) := by
  intro ht
  rw [nodeElements_variant d.2 hown] at he
  split at he
  · rename_i hsuffix
    rw [List.mem_singleton.mp he, idText_fillElement] at ht
    have hid : (cvElement tu d.1).attr? "id" = some [.typeId d.1 (idrefBase tu d.1) (idrefSuffix tu d.1)] :=
      Element.attr?_of_head rfl
    rw [hid] at ht
    have htext : refText (s.indexOf (idrefBase tu d.1)) (idrefSuffix tu d.1) = refText i Quals.none := by
      simpa [valueText, Piece.fill, Piece.text] using ht
    exact absurd (refText_inj.mp htext).2 hsuffix
  · simp at he

omit [DecidableEq Node] in
/-- The elements of the files have other ids than the nodes. -/
theorem idText_file_ne (f : String × Nat) (i : Nat) :
    (fileElement f : Element Node Nat Nat).idText ≠ some (refText i Quals.none) := by
  intro ht
  have hid : (fileElement f : Element Node Nat Nat).attr? "id" = some [.file f.2] := Element.attr?_of_head rfl
  rw [Element.idText, hid] at ht
  have htext : fileText f.2 = refText i Quals.none := by simpa [valueText, Piece.text] using ht
  exact absurd htext.symm (refText_ne_fileText _ _ _)

/-- **The element with the id of `n`** is the one that is printed for `n`. -/
theorem PhasesEnd.own_element {s₁ s₂ : DumpInfo Node} (h : PhasesEnd tu starts s₁ s₂) {e : Element Node Nat Nat}
    (he : e ∈ GccXml.elements (finishDump s₂).file) {n : Node}
    (ht : e.idText = some (refText (s₂.index n) Quals.none)) :
    ∃ c entry, (n, c) ∈ s₂.dumped ∧ PrintsOwnId tu n ∧ nodeEntry tu n c = some entry ∧
      e = s₂.fillElement entry.element := by
  have hroot : (rootElement tu).idText = none := by
    unfold Element.idText Element.attr? rootElement
    cases tu.gccxmlVersionFull <;> rfl
  rcases h.mem_elements.mp he with rfl | ⟨d, hd, e', he', rfl⟩ | ⟨f, -, rfl⟩
  · rw [hroot] at ht
    cases ht
  · by_cases hown : PrintsOwnId tu d.1
    · obtain ⟨entry, hentry, hof⟩ := exists_nodeEntry d.2 hown
      have hels : nodeElements tu d = entry.elements := by simp [nodeElements, hentry]
      rw [hels] at he'
      rcases List.mem_cons.mp he' with rfl | he'
      · obtain ⟨-, hid⟩ := h.exists_own_element hd hentry hown
        rw [hid] at ht
        have hindex : s₂.index d.1 = s₂.index n := (refText_inj.mp (Option.some.inj ht)).1
        have hn : d.1 = n := h.running.1.coherent.index_inj d.1 n
          ((h.index_iff _).mpr ⟨_, h.running.1.onlyReached.dumped d hd⟩) hindex
        subst hn
        exact ⟨d.2, entry, hd, hown, hentry, rfl⟩
      · -- the elements inside have no id
        obtain ⟨child, hchild, rfl⟩ := List.mem_map.mp he'
        cases hcs : entry.children with
        | none => simp [hcs] at hchild
        | some cs =>
            have hnone := hof.children cs hcs child (by simpa [hcs] using hchild)
            rw [idText_fillElement, hnone] at ht
            cases ht
    · exact absurd ht (idText_variant_ne hown he' _)
  · exact absurd ht (idText_file_ne f _)

/-! ## Complete members -/

variable (tu) in
/-- The entry `b` of a namespace binds a name to `m`: it is `m`, the declaration that names the type `m`, or an
    overload set that `m` is in. -/
def Binds (b m : Node) : Prop :=
  b = m ∨ (tu.treeCode b = .typeDecl ∧ (tu.tree b).treeType = some m ∧ (tu.tree m).typeName = some b) ∨
    (tu.treeCode b = .overload ∧ m ∈ (tu.tree b).ovlFunctions) ∨
      (tu.treeCode b = .treeList ∧ ∃ o ∈ (tu.tree b).treeValue, m ∈ tu.ovlChain o)

variable (tu) in
/-- `m` is bound to a name in the namespace `ns`. -/
def BoundIn (ns m : Node) : Prop := ∃ b ∈ tu.allDecls ns, Binds tu b m

variable (tu) in
/-- `m` is an instantiation of a template. -/
def IsInstantiation (m : Node) : Prop :=
  ∃ td, tu.treeCode td = .templateDecl ∧
    (m ∈ (tu.tree td).declTemplateSpecializations ∨ m ∈ (tu.tree td).declTemplateInstantiations)

/-- **The members are complete**: each element that describes something whose context is a namespace with a `members`
    attribute, and which is bound to a name there, is in this attribute exactly once; only instantiations of templates
    may be missing. -/
def MembersComplete (tu : TranslationUnit Node) (s : DumpInfo Node) : Prop :=
  ∀ ns m, ∀ e ∈ elements s.file, ∀ e' ∈ elements s.file,
    e.tag = "Namespace" → e.Has "members" → e.idText = some (refText (s.index ns) Quals.none) →
    e'.tag ∈ describedTags → e'.ids "context" = [s.index ns] → e'.idText = some (refText (s.index m) Quals.none) →
    BoundIn tu ns m → ¬ IsInstantiation tu m → (e.ids "members").count (s.index m) = 1

/-- `m` is described in the document, with the complete namespace `ns` as its context, and bound to a name in `ns`. -/
structure MemberOf (tu : TranslationUnit Node) (starts : List Node) (ns m : Node) : Prop where
  namespaceCode : tu.treeCode ns = .namespaceDecl
  notAlias : (tu.tree ns).declNamespaceAlias = none
  reachedNamespace : Reached tu starts ns true
  reached : ∃ c, Reached tu starts m c
  described : (tu.treeCode m).isDescribed = true
  ownId : PrintsOwnId tu m
  context : (contextTargets tu (contextDecl tu m)).map (answer tu) = [some ns]
  bound : BoundIn tu ns m
  notInstantiation : ¬ IsInstantiation tu m

variable (tu starts) in
/-- For each member of a namespace exactly one binding of the namespace stands for it. -/
def MembersListed : Prop :=
  ∀ ns m, MemberOf tu starts ns m → (tu.allDecls ns).countP (fun b => StandsFor tu b m) = 1

/-- How often a node is in the members of a namespace. -/
theorem PhasesEnd.count_members {s₁ s₂ : DumpInfo Node} (h : PhasesEnd tu starts s₁ s₂) (ns : Node) {m : Node}
    (hm : ∃ c, Reached tu starts m c) :
    (((tu.allDecls ns).filterMap (answer tu)).map s₂.index).count (s₂.index m) =
      (tu.allDecls ns).countP fun b => StandsFor tu b m := by
  obtain ⟨c, hreached⟩ := hm
  have hm0 : s₂.index m ≠ 0 := (h.index_iff m).mpr ⟨c, hreached⟩
  have hcount : (((tu.allDecls ns).filterMap (answer tu)).map s₂.index).count (s₂.index m) =
      ((tu.allDecls ns).filterMap (answer tu)).count m := by
    rw [List.count, List.count, List.countP_map]
    refine List.countP_congr fun r _ => ?_
    simp only [Function.comp_apply, beq_iff_eq]
    refine ⟨fun heq => ?_, fun heq => by rw [heq]⟩
    exact h.running.1.coherent.index_inj r m (heq ▸ hm0) heq
  rw [hcount, List.count_filterMap]
  refine List.countP_congr fun b _ => ?_
  simp only [beq_iff_eq, decide_eq_true_eq]
  exact ⟨standsFor_of_answer, answer_of_standsFor hreached.answer_self⟩

/-- What `members` of a namespace names. -/
theorem ids_namespaceMembers (s : DumpInfo Node) (ns : Node) :
    (s.fillElement ⟨"Namespace", attrsOf (namespaceAttributes tu ns true)⟩).ids "members" =
      ((tu.allDecls ns).filterMap (answer tu)).map s.index := by
  rw [ids_fillElement, ids_members, if_pos rfl, List.map_map]
  rfl

/-- When the members of the document are complete, each member is listed. -/
theorem PhasesEnd.membersListed {s₁ s₂ : DumpInfo Node} (h : PhasesEnd tu starts s₁ s₂)
    (hcomplete : MembersComplete tu (finishDump s₂)) : MembersListed tu starts := by
  intro ns m hm
  obtain ⟨hcode, halias, hns, ⟨c, hreached⟩, hdesc, hown, hcontext, hbound, hinst⟩ := hm
  -- the element of the namespace
  have hnsd : (ns, true) ∈ s₂.dumped := by
    have hprinted := h.printed (h.reached hns).1
    rwa [(h.reached hns).2 rfl] at hprinted
  have hnsown : PrintsOwnId tu ns := by simp [PrintsOwnId, hcode, TreeCode.isCvType]
  have hnsentry : nodeEntry tu ns true = some ⟨⟨"Namespace", attrsOf (namespaceAttributes tu ns true)⟩, none⟩ := by
    simp [nodeEntry, hcode, halias]
  obtain ⟨he, ht⟩ := h.exists_own_element hnsd hnsentry hnsown
  -- the element of the member
  have hmd := h.printed (h.reached hreached).1
  obtain ⟨entry, hentry, -⟩ := exists_nodeEntry (s₂.complete m) hown
  obtain ⟨he', ht'⟩ := h.exists_own_element hmd hentry hown
  have hcontext' : (s₂.fillElement entry.element).ids "context" = [s₂.index ns] := by
    rw [ids_fillElement, ids_context tu hown hentry hdesc, hcontext]
    rfl
  have hone := hcomplete ns m _ he _ he' rfl ((has_fillElement _ _ _).mpr ((has_members tu).mpr rfl)) ht
    ((tag_mem_describedTags tu hown hentry).mpr hdesc) hcontext' ht' hbound hinst
  rw [ids_namespaceMembers] at hone
  rw [← h.count_members ns ⟨c, hreached⟩]
  exact hone

/-- A context that has the id of a namespace is this namespace. -/
theorem PhasesEnd.contextTargets_eq {s₁ s₂ : DumpInfo Node} (h : PhasesEnd tu starts s₁ s₂) {ns m : Node}
    (hns : Reached tu starts ns true)
    (hcontext : ((contextTargets tu (contextDecl tu m)).map (answer tu)).map s₂.indexOf = [s₂.index ns]) :
    (contextTargets tu (contextDecl tu m)).map (answer tu) = [some ns] := by
  obtain ⟨x, hx, hindex⟩ := List.map_eq_singleton_iff.mp hcontext
  have hns0 : s₂.index ns ≠ 0 := (h.reached hns).1
  cases x with
  | none => exact absurd hindex.symm hns0
  | some r =>
      have hr : s₂.index r = s₂.index ns := hindex
      rw [hx, h.running.1.coherent.index_inj r ns (hr ▸ hns0) hr]

/-- When each member is listed, the members of the document are complete. -/
theorem PhasesEnd.membersComplete {s₁ s₂ : DumpInfo Node} (h : PhasesEnd tu starts s₁ s₂)
    (hlisted : MembersListed tu starts) : MembersComplete tu (finishDump s₂) := by
  intro ns m e he e' he' htag hhas ht htag' hcontext ht' hbound hinst
  obtain ⟨c, entry, hd, -, hentry, rfl⟩ := h.own_element he ht
  obtain ⟨c', entry', hd', hown', hentry', rfl⟩ := h.own_element he' ht'
  obtain ⟨hcode, halias, helement⟩ := nodeEntry_namespace tu hentry htag
  have hc : c = true := by
    rw [helement, has_fillElement] at hhas
    exact (has_members tu).mp hhas
  subst hc
  have hdesc := (tag_mem_describedTags tu hown' hentry').mp htag'
  have hreached : Reached tu starts m c' := h.running.1.onlyReached.dumped _ hd'
  have hns : Reached tu starts ns true := h.running.1.onlyReached.dumped _ hd
  rw [ids_fillElement, ids_context tu hown' hentry' hdesc] at hcontext
  have hcontext' := h.contextTargets_eq hns hcontext
  have hone := hlisted ns m ⟨hcode, halias, hns, ⟨_, hreached⟩, hdesc, hown', hcontext', hbound, hinst⟩
  rw [helement, ids_namespaceMembers]
  exact (h.count_members ns ⟨c', hreached⟩).trans hone

theorem PhasesEnd.membersComplete_iff {s₁ s₂ : DumpInfo Node} (h : PhasesEnd tu starts s₁ s₂) :
    MembersComplete tu (finishDump s₂) ↔ MembersListed tu starts := ⟨h.membersListed, h.membersComplete⟩

/-- **When the members are complete.** Every run ends, and in its document the members of each namespace are complete
    if and only if for each of them exactly one binding of the namespace stands for it: not an overload set, and not
    a declaration that is taken for a typedef that names its own type. -/
theorem membersComplete_iff_membersListed (tu : TranslationUnit Node) (starts : List Node) :
    ∃ s, (∀ fuel, 2 * tu.nodes.length ≤ fuel → doXmlOutput tu starts fuel = some s) ∧
      (MembersComplete tu s ↔ MembersListed tu starts) := by
  obtain ⟨s₁, s₂, h, -⟩ := exists_phasesEnd tu starts
  exact ⟨finishDump s₂, fun fuel hf => (h.doXmlOutput hf).2, h.membersComplete_iff⟩

end

/-! ### An overload set

`f (int)` and `f (double)` are bound to one name, by an overload set. -/

/-- The nodes of the example, in the order of their addresses. -/
def overloadSet : TranslationUnit (Fin 6) where
  globalNamespace := 0
  tree
    | 0 => { code := .namespaceDecl, declName := some "::" }
    | 1 => { code := .overload, ovlFunctions := [2, 3] }
    | 2 => { code := .functionDecl, declName := some "f", declContext := some 0, treeType := some 4 }
    | 3 => { code := .functionDecl, declName := some "f", declContext := some 0, treeType := some 4 }
    | 4 => { code := .functionType, treeType := some 5 }
    | _ => { code := .voidType }
  identBindings := [[{ scope := 0, value := some 1 }]]
  nodes := List.finRange 6
  mem_nodes := List.mem_finRange
  address := Fin.val
  nodes_sorted := by decide
  rank
    | 1 => 1
    | _ => 0
  rank_lt := by decide

/-- In a dump of everything in `overloadSet`, `members` is empty. -/
theorem not_membersComplete_overloadSet :
    ∃ s, doXmlOutput overloadSet (defaultStarts overloadSet) 12 = some s ∧ ¬ MembersComplete overloadSet s := by
  have hbound : BoundIn overloadSet 0 2 := ⟨1, by decide, Or.inr (Or.inr (Or.inl ⟨rfl, by decide⟩))⟩
  have hinst : ¬ IsInstantiation overloadSet 2 := by unfold IsInstantiation; decide
  have hdoc : ((doXmlOutput overloadSet (defaultStarts overloadSet) 12).any fun s : DumpInfo (Fin 6) => decide
      (∃ e ∈ elements s.file, ∃ e' ∈ elements s.file, e.tag = "Namespace" ∧ e.Has "members" ∧
        e.idText = some (refText (s.index 0) Quals.none) ∧ e'.tag ∈ describedTags ∧ e'.ids "context" = [s.index 0] ∧
        e'.idText = some (refText (s.index 2) Quals.none) ∧ (e.ids "members").count (s.index 2) = 0)) = true := by
    decide
  obtain ⟨s, hs, hdoc⟩ := (Option.any_eq_true _ _).mp hdoc
  obtain ⟨e, he, e', he', htag, hhas, ht, htag', hcontext, ht', hcount⟩ := of_decide_eq_true hdoc
  refine ⟨s, hs, fun h => ?_⟩
  have hone := h 0 2 e he e' he' htag hhas ht htag' hcontext ht' hbound hinst
  exact absurd (hcount.symm.trans hone) (by decide)

end GccXml
