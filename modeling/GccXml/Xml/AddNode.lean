import GccXml.Lib.Trace
import GccXml.Xml.Tree

namespace GccXml

/-! # `Xml.AddNode` — how a request is resolved to dump nodes

`xml_add_node` decides which nodes a request registers with `xml_add_node_real` and which index it returns. Neither
decision looks at the state of the dump: the functions here log the calls of `xml_add_node_real` in order, and
`Xml.Dump` runs that log. An index is represented by the dump node that holds it: a function that returns
`dn->index` in the source returns the node of `dn` here, and `none` where the source returns 0.

The unit is taken as it stays. `xml_add_node` tries to synthesize some functions, and of this only the mark that the
attempt leaves on the function is here; that an attempt can also change what later requests read is the subject of
`Xml.Synthesis`, and `Xml.Undisturbed` states when it does not matter. -/

/-- A computation that registers nodes: its log holds the calls `xml_add_node_real (xdi, n, complete)`. -/
abbrev Reg (Node : Type) := Trace (Node × Bool)

section
variable {Node : Type} [DecidableEq Node] (tu : TranslationUnit Node)

/-- The call of `xml_add_node_real`: the node is registered, and the index returned is its own. -/
def xmlAddNodeReal (n : Node) (complete : Bool) : Reg Node (Option Node) := ⟨some n, [(n, complete)]⟩

/-! ## The functions of the recursion

Each takes the recursive call of `xml_add_node` as an argument. -/

section
variable (addNode : Node → Bool → Reg Node (Option Node))

/-- `xml_add_typedef`. -/
def xmlAddTypedef (td : Node) (complete : Bool) : Reg Node (Option Node) := do
  if (tu.tree td).declOriginalType = none ∧
      ((tu.tree (tu.treeType td)).typeName.any fun name =>
        (tu.tree td).declName = (tu.tree name).declName ∧
          (tu.tree td).declContext = (tu.tree name).declContext) then
    discard (addNode (tu.treeType td) complete)
    pure none
  else
    let target ← addNode (tu.typeMainVariant (tu.typedefTarget td)) complete
    if target.isSome then xmlAddNodeReal td complete else pure none

/-- `xml_find_self_typedef_name`. -/
def xmlFindSelfTypedefName (rt : Node) : Option String :=
  match tu.treeCode rt with
  | .recordType | .unionType | .qualUnionType =>
      ((tu.tree rt).typeFields.find? fun field =>
        tu.treeCode field = .typeDecl ∧ (tu.tree field).treeType = some rt ∧
          (tu.tree field).declArtificial).bind fun field => (tu.tree field).declName
  | _ => none

/-- The test of `xml_add_type_decl` for the declaration or definition of a class or enumeration itself. -/
def isTypeDefinition (td : Node) : Bool :=
  let t := tu.treeType td
  (tu.tree td).declImplicitTypedefP ||
    ((tu.tree td).declContext = (tu.tree t).typeContext ∧
      xmlFindSelfTypedefName tu t = (tu.tree td).declName ∧ (tu.tree t).typeName = some td)

/-- `xml_add_type_decl`. -/
def xmlAddTypeDecl (td : Node) (complete : Bool) : Reg Node (Option Node) :=
  let t := tu.treeType td
  match tu.treeCode t with
  | .arrayType | .langType | .pointerType | .referenceType | .integerType | .voidType | .booleanType
  | .realType | .complexType | .functionType | .typenameType | .templateTypeParm =>
      xmlAddTypedef tu addNode td complete
  | .enumeralType | .unionType | .qualUnionType | .recordType =>
      if tu.typePtrmemfuncP t then xmlAddTypedef tu addNode td complete
      else if isTypeDefinition tu td then addNode t complete
      else xmlAddTypedef tu addNode td complete
  | _ => xmlAddNodeReal td complete

/-- `xml_add_overload`. -/
def xmlAddOverload (o : Node) (complete : Bool) : Reg Node (Option Node) := do
  Trace.each (tu.ovlChain o) fun f => discard (addNode f complete)
  pure none

/-- One round of the loop over `DECL_TEMPLATE_SPECIALIZATIONS`. -/
def xmlAddSpecialization (ts : Node) (complete : Bool) : Reg Node Unit :=
  match tu.treeCode ts with
  | .functionDecl => discard (addNode ts complete)
  | _ => pure ()

/-- One round of the loop over `DECL_TEMPLATE_INSTANTIATIONS`: the instantiation is added only if it is real. -/
def xmlAddInstantiation (t : Node) (complete : Bool) : Reg Node Unit :=
  let ts := tu.typeNameOf t
  match tu.treeCode ts with
  | .typeDecl =>
      if xmlFindTemplateParm (tu.tree (tu.treeType ts)).typeTiArgs then pure ()
      else discard (addNode ts complete)
  | _ => pure ()

/-- `xml_add_template_decl`, with `fuel` for the nesting of member templates. -/
def xmlAddTemplateDeclFuel : Nat → Node → Bool → Reg Node (Option Node)
  | 0, _, _ => pure none
  | fuel + 1, td, complete => do
      Trace.each (tu.tree td).declTemplateSpecializations fun ts => xmlAddSpecialization tu addNode ts complete
      Trace.each (tu.tree td).declTemplateInstantiations fun t => xmlAddInstantiation tu addNode t complete
      Trace.when complete
        (Trace.each (tu.memberTemplates td) fun tl => discard (xmlAddTemplateDeclFuel fuel tl true))
      pure none

/-- `xml_add_template_decl`; the rank of a class template bounds its nesting. -/
def xmlAddTemplateDecl (td : Node) (complete : Bool) : Reg Node (Option Node) :=
  xmlAddTemplateDeclFuel tu addNode (tu.rank td + 1) td complete

/-- Whether `xml_add_node` finds `GCCXML_DECL_ERROR` on the function `n`: the mark is there, or the attempt to
    synthesize a compiler-generated function without a body puts it there. -/
def gccxmlDeclError (n : Node) : Bool :=
  (tu.tree n).gccxmlDeclError ||
    ((tu.tree n).declArtificial && (tu.tree n).declInitial.isNone &&
      (!tu.declReallyExtern n || (tu.tree n).declInline) && (tu.tree n).synthesizeError)

/-- The body of `xml_add_node`. -/
def xmlAddNodeBody (n : Node) (complete : Bool) : Reg Node (Option Node) :=
  if tu.treeCode n ≠ .namespaceDecl ∧ tu.declP n ∧ (tu.tree n).declSourceLine = 0 then pure none
  else if tu.treeCode n = .functionDecl ∧ gccxmlDeclError tu n then pure none
  else
    match tu.treeCode n with
    | .namespaceDecl => xmlAddNodeReal n complete
    | .typeDecl => xmlAddTypeDecl tu addNode n complete
    | .treeList =>
        match (tu.tree n).treeValue with
        | some o => xmlAddOverload tu addNode o complete
        | none => pure none
    | .overload => xmlAddOverload tu addNode n complete
    | .templateDecl => xmlAddTemplateDecl tu addNode n complete
    | .unionType | .qualUnionType | .recordType =>
        if tu.typePtrmemfuncP n then addNode (tu.typePtrmemfuncFnType n) complete
        else if !(tu.tree n).classtypeIsTemplate then xmlAddNodeReal n complete
        else pure none
    | .constDecl => pure none
    | _ => xmlAddNodeReal n complete

end

/-- `xml_add_node` with `fuel` for its recursion. -/
def xmlAddNodeFuel : Nat → Node → Bool → Reg Node (Option Node)
  | 0, _, _ => pure none
  | fuel + 1, n, complete => xmlAddNodeBody tu (xmlAddNodeFuel fuel) n complete

/-- **`xml_add_node`**: register what the request for `n` stands for and return the node whose index answers it.
    The rank of `n` bounds the recursion, so the fuel never runs out: see `xmlAddNode_eq`. -/
def xmlAddNode (n : Node) (complete : Bool) : Reg Node (Option Node) :=
  xmlAddNodeFuel tu (tu.rank n + 1) n complete

/-! ## The fuel is enough

Every recursive call goes to a node of smaller rank, so two candidates for the recursive call that agree there are
interchangeable. -/

section
variable {tu}
variable {a b : Node → Bool → Reg Node (Option Node)}

omit [DecidableEq Node] in
theorem each_congr {α ω : Type} {xs : List α} {f g : α → Trace ω Unit} (h : ∀ x ∈ xs, f x = g x) :
    Trace.each xs f = Trace.each xs g := by
  refine Trace.ext rfl ?_
  simp only [Trace.log_each, List.flatMap]
  rw [List.map_congr_left fun x hx => by rw [h x hx]]

theorem xmlAddTypedef_congr {td : Node} (complete : Bool) (hcode : tu.treeCode td = .typeDecl)
    (h : ∀ m, tu.rank m < tu.rank td → ∀ c, a m c = b m c) :
    xmlAddTypedef tu a td complete = xmlAddTypedef tu b td complete := by
  have htype := h (tu.treeType td) (tu.rank_redirects (by simp [TreeGraph.redirects, hcode]))
  have htarget := h (tu.typeMainVariant (tu.typedefTarget td))
    (tu.rank_redirects (by simp [TreeGraph.redirects, hcode]))
  simp only [xmlAddTypedef, htype, htarget]

theorem xmlAddTypeDecl_congr {td : Node} (complete : Bool) (hcode : tu.treeCode td = .typeDecl)
    (h : ∀ m, tu.rank m < tu.rank td → ∀ c, a m c = b m c) :
    xmlAddTypeDecl tu a td complete = xmlAddTypeDecl tu b td complete := by
  have htype := h (tu.treeType td) (tu.rank_redirects (by simp [TreeGraph.redirects, hcode]))
  simp only [xmlAddTypeDecl, xmlAddTypedef_congr complete hcode h, htype]

omit [DecidableEq Node] in
theorem xmlAddOverload_congr {o : Node} (complete : Bool)
    (h : ∀ m ∈ tu.ovlChain o, ∀ c, a m c = b m c) :
    xmlAddOverload tu a o complete = xmlAddOverload tu b o complete := by
  unfold xmlAddOverload
  rw [each_congr fun f hf => by rw [h f hf]]

omit [DecidableEq Node] in
theorem xmlAddSpecialization_congr {td ts : Node} (complete : Bool) (hcode : tu.treeCode td = .templateDecl)
    (hts : ts ∈ (tu.tree td).declTemplateSpecializations)
    (h : ∀ m, tu.rank m < tu.rank td → ∀ c, a m c = b m c) :
    xmlAddSpecialization tu a ts complete = xmlAddSpecialization tu b ts complete := by
  unfold xmlAddSpecialization
  split
  · rename_i hc
    rw [h ts (tu.rank_redirects (by simp [TreeGraph.redirects, hcode, hts, hc]))]
  · rfl

omit [DecidableEq Node] in
theorem mem_redirects_instantiation {td t : Node} (hcode : tu.treeCode td = .templateDecl)
    (ht : t ∈ (tu.tree td).declTemplateInstantiations) (hc : tu.treeCode (tu.typeNameOf t) = .typeDecl) :
    tu.typeNameOf t ∈ tu.redirects td := by
  simp only [TreeGraph.redirects, hcode, List.mem_append, List.mem_filter, List.mem_map]
  exact Or.inl (Or.inr ⟨⟨t, ht, rfl⟩, by simpa using hc⟩)

omit [DecidableEq Node] in
theorem xmlAddInstantiation_congr {td t : Node} (complete : Bool) (hcode : tu.treeCode td = .templateDecl)
    (ht : t ∈ (tu.tree td).declTemplateInstantiations)
    (h : ∀ m, tu.rank m < tu.rank td → ∀ c, a m c = b m c) :
    xmlAddInstantiation tu a t complete = xmlAddInstantiation tu b t complete := by
  unfold xmlAddInstantiation
  dsimp only
  split
  · rename_i hc
    rw [h _ (tu.rank_redirects (mem_redirects_instantiation hcode ht hc))]
  · rfl

omit [DecidableEq Node] in
theorem mem_memberTemplates_code {td tl : Node} (h : tl ∈ tu.memberTemplates td) :
    tu.treeCode tl = .templateDecl := by
  unfold TreeGraph.memberTemplates at h
  split at h <;> simp_all

omit [DecidableEq Node] in
theorem rank_memberTemplates {td tl : Node} (hcode : tu.treeCode td = .templateDecl)
    (h : tl ∈ tu.memberTemplates td) : tu.rank tl < tu.rank td :=
  tu.rank_redirects (by simp [TreeGraph.redirects, hcode, h])

omit [DecidableEq Node] in
/-- Enough fuel for the nesting of member templates gives one result, whatever the surplus. -/
theorem xmlAddTemplateDeclFuel_congr {fuel fuel' : Nat} {td : Node} (complete : Bool)
    (hcode : tu.treeCode td = .templateDecl) (hf : tu.rank td < fuel) (hf' : tu.rank td < fuel')
    (h : ∀ m, tu.rank m < tu.rank td → ∀ c, a m c = b m c) :
    xmlAddTemplateDeclFuel tu a fuel td complete = xmlAddTemplateDeclFuel tu b fuel' td complete := by
  induction fuel generalizing fuel' td complete with
  | zero => exact absurd hf (Nat.not_lt_zero _)
  | succ fuel ih =>
      obtain ⟨fuel', rfl⟩ : ∃ k, fuel' = k + 1 := ⟨fuel' - 1, by omega⟩
      have hspec := each_congr fun ts hts => xmlAddSpecialization_congr complete hcode hts h
      have hinst := each_congr fun t ht => xmlAddInstantiation_congr complete hcode ht h
      have hmem : Trace.each (tu.memberTemplates td) (fun tl => discard (xmlAddTemplateDeclFuel tu a fuel tl true))
          = Trace.each (tu.memberTemplates td) fun tl => discard (xmlAddTemplateDeclFuel tu b fuel' tl true) :=
        each_congr fun tl htl => by
          have hr := rank_memberTemplates hcode htl
          have htl' : xmlAddTemplateDeclFuel tu a fuel tl true = xmlAddTemplateDeclFuel tu b fuel' tl true :=
            ih true (mem_memberTemplates_code htl) (by omega) (by omega) fun m hm => h m (by omega)
          rw [htl']
      simp only [xmlAddTemplateDeclFuel, hspec, hinst, hmem]

omit [DecidableEq Node] in
theorem xmlAddTemplateDecl_congr {td : Node} (complete : Bool) (hcode : tu.treeCode td = .templateDecl)
    (h : ∀ m, tu.rank m < tu.rank td → ∀ c, a m c = b m c) :
    xmlAddTemplateDecl tu a td complete = xmlAddTemplateDecl tu b td complete :=
  xmlAddTemplateDeclFuel_congr complete hcode (Nat.lt_succ_self _) (Nat.lt_succ_self _) h

omit [DecidableEq Node] in
theorem rank_typePtrmemfuncFnType {n : Node} (h : tu.typePtrmemfuncP n) :
    tu.rank (tu.typePtrmemfuncFnType n) < tu.rank n := by
  obtain ⟨hcode, hfn⟩ : tu.treeCode n = .recordType ∧ (tu.tree n).typePtrmemfuncFnType.isSome := by
    simpa [TreeGraph.typePtrmemfuncP] using h
  obtain ⟨t, ht⟩ := Option.isSome_iff_exists.mp hfn
  have heq : tu.typePtrmemfuncFnType n = t := by simp [TreeGraph.typePtrmemfuncFnType, ht]
  exact heq ▸ tu.rank_redirects (by simp [TreeGraph.redirects, hcode, ht])

/-- The body of `xml_add_node` calls itself on nodes of smaller rank only. -/
theorem xmlAddNodeBody_congr {n : Node} (complete : Bool)
    (h : ∀ m, tu.rank m < tu.rank n → ∀ c, a m c = b m c) :
    xmlAddNodeBody tu a n complete = xmlAddNodeBody tu b n complete := by
  unfold xmlAddNodeBody
  split
  · rfl
  split
  · rfl
  split
  · rfl
  · rename_i hcode; exact xmlAddTypeDecl_congr complete hcode h
  · rename_i hcode
    split
    · rename_i o ho
      exact xmlAddOverload_congr complete fun m hm =>
        h m (tu.rank_redirects (by simp [TreeGraph.redirects, hcode, ho, hm]))
    · rfl
  · rename_i hcode
    exact xmlAddOverload_congr complete fun m hm =>
      h m (tu.rank_redirects (by simp [TreeGraph.redirects, hcode, hm]))
  · rename_i hcode; exact xmlAddTemplateDecl_congr complete hcode h
  -- classes, where a pointer to member function is redirected to its function type
  case h_6 | h_7 | h_8 =>
    split
    · rename_i hp
      rw [h _ (rank_typePtrmemfuncFnType hp)]
    · rfl
  · rfl
  · rfl

end

theorem xmlAddNodeFuel_eq {fuel fuel' : Nat} {n : Node} (complete : Bool) (hf : tu.rank n < fuel)
    (hf' : tu.rank n < fuel') : xmlAddNodeFuel tu fuel n complete = xmlAddNodeFuel tu fuel' n complete := by
  induction fuel generalizing fuel' n complete with
  | zero => exact absurd hf (Nat.not_lt_zero _)
  | succ fuel ih =>
      obtain ⟨fuel', rfl⟩ : ∃ k, fuel' = k + 1 := ⟨fuel' - 1, by omega⟩
      exact xmlAddNodeBody_congr complete fun m hm c => ih c (by omega) (by omega)

/-- **The recursion of the source.** `xml_add_node` is its body with itself as the recursive call. -/
theorem xmlAddNode_eq (n : Node) (complete : Bool) :
    xmlAddNode tu n complete = xmlAddNodeBody tu (xmlAddNode tu) n complete :=
  xmlAddNodeBody_congr complete fun _ hm c => xmlAddNodeFuel_eq tu c (by omega) (by omega)

/-! ## What a request registers

Whatever the completeness of a request, it is answered with the same index; it registers its nodes with its own
completeness, and a complete request registers at least what an incomplete one does. -/

/-- The calls of `xml_add_node_real` that a request makes, as a function of its completeness: they all carry the
    completeness of the request, and a complete request makes those of an incomplete one. -/
structure LogConsistent (l : Bool → List (Node × Bool)) : Prop where
  flag : ∀ c, ∀ e ∈ l c, e.2 = c
  mono : ∀ r, (r, false) ∈ l false → (r, true) ∈ l true

namespace LogConsistent

omit [DecidableEq Node]

theorem nil : LogConsistent fun _ => ([] : List (Node × Bool)) := ⟨by simp, by simp⟩

theorem single (n : Node) : LogConsistent fun c => [(n, c)] := ⟨by simp, by simp⟩

theorem append {l l' : Bool → List (Node × Bool)} (h : LogConsistent l) (h' : LogConsistent l') :
    LogConsistent fun c => l c ++ l' c where
  flag c e he := (List.mem_append.mp he).elim (h.flag c e) (h'.flag c e)
  mono r hr := List.mem_append.mpr ((List.mem_append.mp hr).imp (h.mono r) (h'.mono r))

theorem flatMap {α : Type} {xs : List α} {l : α → Bool → List (Node × Bool)}
    (h : ∀ x ∈ xs, LogConsistent (l x)) : LogConsistent fun c => xs.flatMap fun x => l x c where
  flag c e he := by
    obtain ⟨x, hx, he⟩ := List.mem_flatMap.mp he
    exact (h x hx).flag c e he
  mono r hr := by
    obtain ⟨x, hx, hr⟩ := List.mem_flatMap.mp hr
    exact List.mem_flatMap.mpr ⟨x, hx, (h x hx).mono r hr⟩

/-- What only a complete request does keeps the log consistent. -/
theorem onlyComplete {l : Bool → List (Node × Bool)} (h : LogConsistent l) :
    LogConsistent fun c => if c then l true else [] where
  flag c e he := by
    cases c with
    | false => simp at he
    | true => exact h.flag true e he
  mono r hr := by simp at hr

end LogConsistent

/-- A request is consistent: so is its log, its answer does not depend on its completeness, and the node that
    answers it is registered by it. -/
structure RequestConsistent (f : Bool → Reg Node (Option Node)) : Prop where
  log : LogConsistent fun c => (f c).log
  same : ∀ c, (f c).value = (f false).value
  answered : ∀ c r, (f c).value = some r → (r, c) ∈ (f c).log

namespace RequestConsistent

omit [DecidableEq Node]

theorem declined : RequestConsistent fun _ => (pure none : Reg Node (Option Node)) :=
  ⟨.nil, fun _ => rfl, by simp⟩

theorem real (n : Node) : RequestConsistent (xmlAddNodeReal n) :=
  ⟨.single n, fun _ => rfl, by simp [xmlAddNodeReal]⟩

/-- A request that registers but answers 0. -/
theorem silent {f : Bool → Reg Node Unit} (h : LogConsistent fun c => (f c).log) :
    RequestConsistent fun c => (do f c; pure none) :=
  ⟨by simpa using h, fun _ => rfl, by simp⟩

end RequestConsistent

section
variable {tu}
variable {a : Node → Bool → Reg Node (Option Node)}

theorem xmlAddTypedef_consistent {td : Node} (hcode : tu.treeCode td = .typeDecl)
    (h : ∀ m, tu.rank m < tu.rank td → RequestConsistent (a m)) :
    RequestConsistent (xmlAddTypedef tu a td) := by
  have htype := h (tu.treeType td) (tu.rank_redirects (by simp [TreeGraph.redirects, hcode]))
  have htarget := h (tu.typeMainVariant (tu.typedefTarget td))
    (tu.rank_redirects (by simp [TreeGraph.redirects, hcode]))
  unfold xmlAddTypedef
  split
  · exact .silent (by simpa using htype.log)
  · cases hv : (a (tu.typeMainVariant (tu.typedefTarget td)) false).value with
    | none =>
        have hnone : ∀ c, (a (tu.typeMainVariant (tu.typedefTarget td)) c).value = none := fun c =>
          (htarget.same c).trans hv
        exact ⟨by simpa [hnone] using htarget.log, fun c => by simp [hnone], by simp [hnone]⟩
    | some r =>
        have hsome : ∀ c, (a (tu.typeMainVariant (tu.typedefTarget td)) c).value = some r := fun c =>
          (htarget.same c).trans hv
        exact ⟨by simpa [hsome, xmlAddNodeReal] using htarget.log.append (.single td),
          fun c => by simp [hsome, xmlAddNodeReal], by simp [hsome, xmlAddNodeReal]⟩

theorem xmlAddTypeDecl_consistent {td : Node} (hcode : tu.treeCode td = .typeDecl)
    (h : ∀ m, tu.rank m < tu.rank td → RequestConsistent (a m)) :
    RequestConsistent (xmlAddTypeDecl tu a td) := by
  have htype := h (tu.treeType td) (tu.rank_redirects (by simp [TreeGraph.redirects, hcode]))
  have htypedef := xmlAddTypedef_consistent hcode h
  unfold xmlAddTypeDecl
  dsimp only
  split
  case h_17 => exact .real td
  case h_13 | h_14 | h_15 | h_16 =>
    split
    · exact htypedef
    · split
      · exact htype
      · exact htypedef
  all_goals exact htypedef

omit [DecidableEq Node] in
theorem xmlAddOverload_consistent {o : Node} (h : ∀ m ∈ tu.ovlChain o, RequestConsistent (a m)) :
    RequestConsistent (xmlAddOverload tu a o) :=
  .silent (by simpa using LogConsistent.flatMap fun f hf => (h f hf).log)

omit [DecidableEq Node] in
theorem xmlAddSpecialization_consistent {td ts : Node} (hcode : tu.treeCode td = .templateDecl)
    (hts : ts ∈ (tu.tree td).declTemplateSpecializations)
    (h : ∀ m, tu.rank m < tu.rank td → RequestConsistent (a m)) :
    LogConsistent fun c => (xmlAddSpecialization tu a ts c).log := by
  unfold xmlAddSpecialization
  split
  · rename_i hc
    simpa using (h ts (tu.rank_redirects (by simp [TreeGraph.redirects, hcode, hts, hc]))).log
  · exact .nil

omit [DecidableEq Node] in
theorem xmlAddInstantiation_consistent {td t : Node} (hcode : tu.treeCode td = .templateDecl)
    (ht : t ∈ (tu.tree td).declTemplateInstantiations)
    (h : ∀ m, tu.rank m < tu.rank td → RequestConsistent (a m)) :
    LogConsistent fun c => (xmlAddInstantiation tu a t c).log := by
  unfold xmlAddInstantiation
  dsimp only
  split
  · rename_i hc
    split
    · exact .nil
    · simpa using (h _ (tu.rank_redirects (mem_redirects_instantiation hcode ht hc))).log
  · exact .nil

omit [DecidableEq Node] in
theorem xmlAddTemplateDeclFuel_consistent {fuel : Nat} {td : Node} (hcode : tu.treeCode td = .templateDecl)
    (h : ∀ m, tu.rank m < tu.rank td → RequestConsistent (a m)) :
    RequestConsistent (xmlAddTemplateDeclFuel tu a fuel td) := by
  induction fuel generalizing td with
  | zero => exact .declined
  | succ fuel ih =>
      have hspec := LogConsistent.flatMap fun ts hts => xmlAddSpecialization_consistent hcode hts h
      have hinst := LogConsistent.flatMap fun t ht => xmlAddInstantiation_consistent hcode ht h
      have hmem : LogConsistent fun c =>
          (tu.memberTemplates td).flatMap fun tl => (xmlAddTemplateDeclFuel tu a fuel tl c).log :=
        .flatMap fun tl htl => (ih (mem_memberTemplates_code htl) fun m hm =>
          h m (Nat.lt_trans hm (rank_memberTemplates hcode htl))).log
      have hnone : ∀ c, (xmlAddTemplateDeclFuel tu a (fuel + 1) td c).value = none := by
        intro c; cases c <;> simp [xmlAddTemplateDeclFuel]
      refine ⟨?_, fun c => by rw [hnone, hnone], by simp [hnone]⟩
      convert (hspec.append hinst).append hmem.onlyComplete using 2 with c
      cases c <;> simp [xmlAddTemplateDeclFuel]

/-- One level of `xml_add_node` keeps requests consistent. -/
theorem xmlAddNodeBody_consistent {n : Node} (h : ∀ m, tu.rank m < tu.rank n → RequestConsistent (a m)) :
    RequestConsistent (xmlAddNodeBody tu a n) := by
  unfold xmlAddNodeBody
  split
  · exact .declined
  split
  · exact .declined
  split
  · exact .real n
  · rename_i hcode; exact xmlAddTypeDecl_consistent hcode h
  · rename_i hcode
    split
    · rename_i o ho
      exact xmlAddOverload_consistent fun m hm =>
        h m (tu.rank_redirects (by simp [TreeGraph.redirects, hcode, ho, hm]))
    · exact .declined
  · rename_i hcode
    exact xmlAddOverload_consistent fun m hm =>
      h m (tu.rank_redirects (by simp [TreeGraph.redirects, hcode, hm]))
  · rename_i hcode; exact xmlAddTemplateDeclFuel_consistent hcode h
  case h_6 | h_7 | h_8 =>
    split
    · rename_i hp
      exact h _ (rank_typePtrmemfuncFnType hp)
    · split
      · exact .real n
      · exact .declined
  · exact .declined
  · exact .real n

end

/-- **Every request is consistent.** -/
theorem xmlAddNode_consistent (n : Node) : RequestConsistent (xmlAddNode tu n) := by
  induction hr : tu.rank n using Nat.strongRecOn generalizing n with
  | _ r ih =>
      have heq : xmlAddNode tu n = xmlAddNodeBody tu (xmlAddNode tu) n := funext (xmlAddNode_eq tu n)
      rw [heq]
      exact xmlAddNodeBody_consistent fun m hm => ih (tu.rank m) (hr ▸ hm) m rfl

/-- The node whose index answers a request for `n`, if any. -/
def answer (n : Node) : Option Node := (xmlAddNode tu n false).value

/-- The nodes that a request for `n` registers. -/
def registered (n : Node) (complete : Bool) : List Node := (xmlAddNode tu n complete).log.map (·.1)

theorem xmlAddNode_value (n : Node) (complete : Bool) : (xmlAddNode tu n complete).value = answer tu n :=
  (xmlAddNode_consistent tu n).same complete

theorem xmlAddNode_log (n : Node) (complete : Bool) :
    (xmlAddNode tu n complete).log = (registered tu n complete).map (·, complete) := by
  unfold registered
  rw [List.map_map]
  refine (List.map_congr_left fun e he => ?_).trans (List.map_id _) |>.symm
  exact Prod.ext rfl ((xmlAddNode_consistent tu n).log.flag complete e he).symm

theorem mem_registered {n r : Node} {complete : Bool} :
    r ∈ registered tu n complete ↔ (r, complete) ∈ (xmlAddNode tu n complete).log := by
  rw [xmlAddNode_log]; simp

theorem answer_mem_registered {n r : Node} (h : answer tu n = some r) (complete : Bool) :
    r ∈ registered tu n complete :=
  (mem_registered tu).mpr <|
    (xmlAddNode_consistent tu n).answered complete r (by rw [xmlAddNode_value, h])

theorem registered_mono {n r : Node} (h : r ∈ registered tu n false) : r ∈ registered tu n true :=
  (mem_registered tu).mpr <| (xmlAddNode_consistent tu n).log.mono r ((mem_registered tu).mp h)

end

end GccXml
