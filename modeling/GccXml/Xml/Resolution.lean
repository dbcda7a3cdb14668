import GccXml.Xml.Synthesis

namespace GccXml

/-! # `Xml.Resolution` — requests in a unit that changes

What `xml_add_node` does with a request can be said without the order of its steps: the request registers nothing or its
node, it is passed on, or it goes on to a list of nodes. `resolution` is this as a function of the unit, and
`templateParts` lists what a template goes on to. Both versions of `xml_add_node` carry out the resolution, the one of
`Xml.AddNode` in the unit that it is given (`xmlAddNodeBody_eq_carryOut`) and the one of `Xml.Synthesis` in the unit that
the front end shows after the attempt to synthesize (`xmlAddNodeSwitch_apply`).

So two units in which the nodes that are requested have the same resolutions cannot be told apart by requests. The
module first proves this of two units that stay (`xmlAddNode_unit`). For the unit that changes it states when the
changes do not matter: `Undisturbed` says of every state that attempts to synthesize requested functions lead to that
the requests of the phase are resolved as in the first state and that printing issues the same ones. Under this
condition a request follows, in the sense of `Lib.Interference`, the trace that it logs in the unit of the first state:
`makes_xmlAddNode`, by induction on the fuel, with one lemma for each loop of `xml_add_template_decl`. -/

open InWorld

/-! ## What a request is resolved to -/

/-- What `xml_add_node` does with a request for a node, in the terms of the nodes that it goes on to. -/
inductive Resolution (Node : Type)
  /-- Nothing is registered. -/
  | nothing
  /-- The node itself is registered. -/
  | itself
  /-- Another node is requested and answers the request. -/
  | passedOn (m : Node)
  /-- Another node is requested and the request is answered with 0. -/
  | replacedBy (m : Node)
  /-- The node is registered if its target is answered. -/
  | typedefOf (target : Node)
  /-- Each of these is requested. -/
  | each (ms : List Node)
  /-- The parts of the template are requested. -/
  | template
  deriving DecidableEq

namespace Resolution

variable {Node : Type}

/-- The nodes that are requested next. -/
def targets : Resolution Node → List Node
  | nothing | itself | template => []
  | passedOn m | replacedBy m | typedefOf m => [m]
  | each ms => ms

/-- The request for `n` with this resolution, in any monad that can register and request. -/
def carryOut {M : Type → Type} [Monad M] (real addNode template : Node → Bool → M (Option Node))
    (n : Node) (complete : Bool) : Resolution Node → M (Option Node)
  | nothing => pure none
  | itself => real n complete
  | passedOn m => addNode m complete
  | replacedBy m => do
      discard (addNode m complete)
      pure none
  | typedefOf target => do
      let answer ← addNode target complete
      if answer.isSome then real n complete else pure none
  | each ms => do
      ms.forM fun m => discard (addNode m complete)
      pure none
  | .template => template n complete

end Resolution

section
variable {Node : Type} [DecidableEq Node] (tu : TranslationUnit Node)

/-- The resolution of a typedef. -/
def resolveTypedef (td : Node) : Resolution Node :=
  if (tu.tree td).declOriginalType = none ∧
      ((tu.tree (tu.treeType td)).typeName.any fun name =>
        (tu.tree td).declName = (tu.tree name).declName ∧
          (tu.tree td).declContext = (tu.tree name).declContext) then .replacedBy (tu.treeType td)
  else .typedefOf (tu.typeMainVariant (tu.typedefTarget td))

/-- The resolution of a `TYPE_DECL`. -/
def resolveTypeDecl (td : Node) : Resolution Node :=
  match tu.treeCode (tu.treeType td) with
  | .arrayType | .langType | .pointerType | .referenceType | .integerType | .voidType | .booleanType
  | .realType | .complexType | .functionType | .typenameType | .templateTypeParm => resolveTypedef tu td
  | .enumeralType | .unionType | .qualUnionType | .recordType =>
      if tu.typePtrmemfuncP (tu.treeType td) then resolveTypedef tu td
      else if isTypeDefinition tu td then .passedOn (tu.treeType td)
      else resolveTypedef tu td
  | _ => .itself

/-- The resolution of a node that is not skipped. -/
def resolveSwitch (n : Node) : Resolution Node :=
  match tu.treeCode n with
  | .namespaceDecl => .itself
  | .typeDecl => resolveTypeDecl tu n
  | .treeList =>
      match (tu.tree n).treeValue with
      | some o => .each (tu.ovlChain o)
      | none => .nothing
  | .overload => .each (tu.ovlChain n)
  | .templateDecl => .template
  | .unionType | .qualUnionType | .recordType =>
      if tu.typePtrmemfuncP n then .passedOn (tu.typePtrmemfuncFnType n)
      else if !(tu.tree n).classtypeIsTemplate then .itself
      else .nothing
  | .constDecl => .nothing
  | _ => .itself

/-- **The resolution of a request for `n`** in the unit `tu`. -/
def resolution (n : Node) : Resolution Node :=
  if tu.treeCode n ≠ .namespaceDecl ∧ tu.declP n ∧ (tu.tree n).declSourceLine = 0 then .nothing
  else if tu.treeCode n = .functionDecl ∧ gccxmlDeclError tu n then .nothing
  else resolveSwitch tu n

/-- What `xml_add_template_decl` reads of a template: its specializations, each with whether it is a function, its
    instantiations, each with the declaration that is requested for it, and its member templates. -/
structure TemplateParts (Node : Type) where
  specializations : List (Node × Bool)
  instantiations : List (Node × Option Node)
  members : List Node
  deriving DecidableEq

omit [DecidableEq Node] in
/-- The declaration that is requested for the instantiation `t`. -/
def requestedInstantiation (t : Node) : Option Node :=
  if tu.treeCode (tu.typeNameOf t) = .typeDecl ∧
      xmlFindTemplateParm (tu.tree (tu.treeType (tu.typeNameOf t))).typeTiArgs = false then
    some (tu.typeNameOf t)
  else none

omit [DecidableEq Node] in
/-- The parts of the template `td`. -/
def templateParts (td : Node) : TemplateParts Node where
  specializations := (tu.tree td).declTemplateSpecializations.map fun ts => (ts, tu.treeCode ts = .functionDecl)
  instantiations := (tu.tree td).declTemplateInstantiations.map fun t => (t, requestedInstantiation tu t)
  members := tu.memberTemplates td

variable {tu}

section
variable {g : TranslationUnit Node} {td : Node}

omit [DecidableEq Node] in
theorem specializations_of_templateParts (h : templateParts g td = templateParts tu td) :
    (g.tree td).declTemplateSpecializations = (tu.tree td).declTemplateSpecializations := by
  simpa [templateParts, Function.comp_def] using congrArg (fun p => p.specializations.map Prod.fst) h

omit [DecidableEq Node] in
theorem instantiations_of_templateParts (h : templateParts g td = templateParts tu td) :
    (g.tree td).declTemplateInstantiations = (tu.tree td).declTemplateInstantiations := by
  simpa [templateParts, Function.comp_def] using congrArg (fun p => p.instantiations.map Prod.fst) h

omit [DecidableEq Node] in
theorem members_of_templateParts (h : templateParts g td = templateParts tu td) :
    g.memberTemplates td = tu.memberTemplates td := congrArg TemplateParts.members h

omit [DecidableEq Node] in
/-- A specialization is a function in both units or in none. -/
theorem treeCode_of_templateParts (h : templateParts g td = templateParts tu td) {ts : Node}
    (hts : ts ∈ (tu.tree td).declTemplateSpecializations) :
    g.treeCode ts = .functionDecl ↔ tu.treeCode ts = .functionDecl := by
  have heq := congrArg TemplateParts.specializations h
  simp only [templateParts, specializations_of_templateParts h] at heq
  simpa using List.map_inj_left.mp heq ts hts

omit [DecidableEq Node] in
/-- For an instantiation both units request the same declaration. -/
theorem requestedInstantiation_of_templateParts (h : templateParts g td = templateParts tu td) {t : Node}
    (ht : t ∈ (tu.tree td).declTemplateInstantiations) :
    requestedInstantiation g t = requestedInstantiation tu t := by
  have heq := congrArg TemplateParts.instantiations h
  simp only [templateParts, instantiations_of_templateParts h] at heq
  simpa using List.map_inj_left.mp heq t ht

end

/-! ### The requests of a fixed unit -/

theorem Trace.each_eq_forM {ω α : Type} (xs : List α) (f : α → Trace ω Unit) : Trace.each xs f = xs.forM f := by
  induction xs with
  | nil => rfl
  | cons x xs ih => rw [Trace.each_cons, ih]; rfl

theorem xmlAddTypedef_eq_carryOut (a t : Node → Bool → Reg Node (Option Node)) (td : Node) (c : Bool) :
    xmlAddTypedef tu a td c = (resolveTypedef tu td).carryOut xmlAddNodeReal a t td c := by
  unfold xmlAddTypedef resolveTypedef
  split <;> rfl

theorem xmlAddTypeDecl_eq_carryOut (a t : Node → Bool → Reg Node (Option Node)) (td : Node) (c : Bool) :
    xmlAddTypeDecl tu a td c = (resolveTypeDecl tu td).carryOut xmlAddNodeReal a t td c := by
  have htypedef : xmlAddTypedef tu a td c = _ := xmlAddTypedef_eq_carryOut a t td c
  unfold xmlAddTypeDecl resolveTypeDecl
  dsimp only
  cases tu.treeCode (tu.treeType td)
  case enumeralType | unionType | qualUnionType | recordType =>
    dsimp only
    by_cases hp : tu.typePtrmemfuncP (tu.treeType td) = true
    · rw [if_pos hp, if_pos hp]
      exact htypedef
    · rw [if_neg hp, if_neg hp]
      by_cases hd : isTypeDefinition tu td = true
      · rw [if_pos hd, if_pos hd]
        rfl
      · rw [if_neg hd, if_neg hd]
        exact htypedef
  all_goals first | exact htypedef | rfl

omit [DecidableEq Node] in
theorem xmlAddOverload_eq_carryOut (a t : Node → Bool → Reg Node (Option Node)) (o n : Node) (c : Bool) :
    xmlAddOverload tu a o c = (Resolution.each (tu.ovlChain o)).carryOut xmlAddNodeReal a t n c := by
  unfold xmlAddOverload
  rw [Trace.each_eq_forM]
  rfl

/-- In a fixed unit, `xml_add_node` carries out the resolution. -/
theorem xmlAddNodeBody_eq_carryOut (a : Node → Bool → Reg Node (Option Node)) (n : Node) (c : Bool) :
    xmlAddNodeBody tu a n c =
      (resolution tu n).carryOut xmlAddNodeReal a (xmlAddTemplateDecl tu a) n c := by
  unfold xmlAddNodeBody resolution
  split
  · rfl
  split
  · rfl
  unfold resolveSwitch
  cases tu.treeCode n
  case typeDecl => exact xmlAddTypeDecl_eq_carryOut a _ n c
  case treeList =>
    dsimp only
    cases (tu.tree n).treeValue with
    | none => rfl
    | some o => exact xmlAddOverload_eq_carryOut a _ o n c
  case overload => exact xmlAddOverload_eq_carryOut a _ n n c
  case unionType | qualUnionType | recordType =>
    dsimp only
    split
    · rfl
    · split <;> rfl
  all_goals rfl

/-- A request goes on to the redirections of its node only. -/
theorem targets_resolveTypeDecl {td m : Node} (hcode : tu.treeCode td = .typeDecl)
    (hm : m ∈ (resolveTypeDecl tu td).targets) : m ∈ tu.redirects td := by
  have htypedef : m ∈ (resolveTypedef tu td).targets → m ∈ tu.redirects td := by
    intro h
    unfold resolveTypedef at h
    split at h <;> rw [List.mem_singleton.mp h] <;> simp [TreeGraph.redirects, hcode]
  unfold resolveTypeDecl at hm
  split at hm
  case h_17 => simp [Resolution.targets] at hm
  case h_13 | h_14 | h_15 | h_16 =>
    split at hm
    · exact htypedef hm
    · split at hm
      · rw [List.mem_singleton.mp hm]
        simp [TreeGraph.redirects, hcode]
      · exact htypedef hm
  all_goals exact htypedef hm

theorem treeCode_of_resolution_template {n : Node} (h : resolution tu n = .template) :
    tu.treeCode n = .templateDecl := by
  have htypedef : ∀ td, resolveTypedef tu td ≠ .template := by
    intro td
    unfold resolveTypedef
    split <;> simp
  unfold resolution at h
  split at h
  · cases h
  split at h
  · cases h
  unfold resolveSwitch at h
  split at h
  case h_2 =>
    unfold resolveTypeDecl at h
    split at h
    case h_17 => cases h
    case h_13 | h_14 | h_15 | h_16 =>
      split at h
      · exact absurd h (htypedef n)
      · split at h
        · cases h
        · exact absurd h (htypedef n)
    all_goals exact absurd h (htypedef n)
  case h_3 => split at h <;> cases h
  case h_5 hcode => exact hcode
  case h_6 | h_7 | h_8 =>
    split at h
    · cases h
    · split at h <;> cases h
  all_goals cases h

theorem targets_resolution {n m : Node} (hm : m ∈ (resolution tu n).targets) : m ∈ tu.redirects n := by
  unfold resolution at hm
  split at hm
  · simp [Resolution.targets] at hm
  split at hm
  · simp [Resolution.targets] at hm
  unfold resolveSwitch at hm
  split at hm
  case h_2 hcode => exact targets_resolveTypeDecl hcode hm
  case h_3 hcode =>
    split at hm
    · rename_i o ho
      simpa [TreeGraph.redirects, hcode, ho, Resolution.targets] using hm
    · simp [Resolution.targets] at hm
  case h_4 hcode => simpa [TreeGraph.redirects, hcode, Resolution.targets] using hm
  case h_6 | h_7 | h_8 =>
    split at hm
    · rename_i hp
      obtain ⟨hcode, hfn⟩ : tu.treeCode n = .recordType ∧ (tu.tree n).typePtrmemfuncFnType.isSome := by
        simpa [TreeGraph.typePtrmemfuncP] using hp
      obtain ⟨t, ht⟩ := Option.isSome_iff_exists.mp hfn
      rw [List.mem_singleton.mp hm]
      simp [TreeGraph.redirects, hcode, TreeGraph.typePtrmemfuncFnType, ht]
    · split at hm <;> simp [Resolution.targets] at hm
  all_goals simp [Resolution.targets] at hm

end

/-! ## The resolution in a unit that changes -/

namespace FrontEnd

section
variable {Node : Type} [DecidableEq Node] {fe : FrontEnd Node}
variable {a t : Node → Bool → Live fe (Option Node)}

theorem xmlAddTypedef_apply (td : Node) (c : Bool) (w : fe.State) (s : DumpInfo Node) :
    xmlAddTypedef fe a td c (w, s) =
      (resolveTypedef (fe.unit w) td).carryOut (xmlAddNodeReal fe) a t td c (w, s) := by
  unfold xmlAddTypedef resolveTypedef
  rw [world_bind_apply]
  dsimp only
  split <;> rfl

theorem xmlAddTypeDecl_apply (td : Node) (c : Bool) (w : fe.State) (s : DumpInfo Node) :
    xmlAddTypeDecl fe a td c (w, s) =
      (resolveTypeDecl (fe.unit w) td).carryOut (xmlAddNodeReal fe) a t td c (w, s) := by
  have htypedef : xmlAddTypedef fe a td c (w, s) = _ := xmlAddTypedef_apply (t := t) td c w s
  unfold xmlAddTypeDecl resolveTypeDecl
  rw [world_bind_apply]
  dsimp only
  cases (fe.unit w).treeCode ((fe.unit w).treeType td)
  case enumeralType | unionType | qualUnionType | recordType =>
    dsimp only
    by_cases hp : (fe.unit w).typePtrmemfuncP ((fe.unit w).treeType td) = true
    · rw [if_pos hp, if_pos hp]
      exact htypedef
    · rw [if_neg hp, if_neg hp]
      by_cases hd : isTypeDefinition (fe.unit w) td = true
      · rw [if_pos hd, if_pos hd]
        rfl
      · rw [if_neg hd, if_neg hd]
        exact htypedef
  all_goals first | exact htypedef | rfl

theorem xmlAddNodeSwitch_apply (fuel : Nat) (n : Node) (c : Bool) (w : fe.State) (s : DumpInfo Node) :
    xmlAddNodeSwitch fe a fuel n c (w, s) =
      (resolveSwitch (fe.unit w) n).carryOut (xmlAddNodeReal fe) a (xmlAddTemplateDecl fe a fuel) n c (w, s) := by
  unfold xmlAddNodeSwitch resolveSwitch
  rw [world_bind_apply]
  dsimp only
  cases (fe.unit w).treeCode n
  case typeDecl => exact xmlAddTypeDecl_apply n c w s
  case treeList =>
    dsimp only
    cases ((fe.unit w).tree n).treeValue <;> rfl
  case unionType | qualUnionType | recordType =>
    dsimp only
    split
    · rfl
    · split <;> rfl
  all_goals rfl

variable (fe) in
/-- The state of the front end after the attempt to synthesize `n`. -/
def afterAttempt (n : Node) (w : fe.State) : fe.State :=
  if needsSynthesis (fe.unit w) n then fe.synthesizeMethod n w else w

omit [DecidableEq Node] in
theorem synthesizeFirst_apply (n : Node) (w : fe.State) (s : DumpInfo Node) :
    fe.synthesizeFirst n (w, s) = some ((), (fe.afterAttempt n w, s)) := by
  unfold synthesizeFirst afterAttempt
  rw [world_bind_apply]
  dsimp only
  split <;> rfl

omit [DecidableEq Node] in
theorem xmlAddSpecialization_apply (ts : Node) (c : Bool) (w : fe.State) (s : DumpInfo Node) :
    xmlAddSpecialization fe a ts c (w, s) =
      (if (fe.unit w).treeCode ts = .functionDecl then discard (a ts c) else pure () : Live fe Unit) (w, s) := by
  unfold xmlAddSpecialization
  rw [world_bind_apply]
  dsimp only
  cases (fe.unit w).treeCode ts <;> rfl

omit [DecidableEq Node] in
theorem xmlAddInstantiation_apply (t : Node) (c : Bool) (w : fe.State) (s : DumpInfo Node) :
    xmlAddInstantiation fe a t c (w, s) =
      ((requestedInstantiation (fe.unit w) t).elim (pure ()) fun ts => discard (a ts c) : Live fe Unit) (w, s) := by
  unfold xmlAddInstantiation requestedInstantiation
  rw [world_bind_apply]
  dsimp only
  cases (fe.unit w).treeCode ((fe.unit w).typeNameOf t)
  case typeDecl =>
    dsimp only
    cases xmlFindTemplateParm ((fe.unit w).tree ((fe.unit w).treeType ((fe.unit w).typeNameOf t))).typeTiArgs <;> rfl
  all_goals rfl

end

end FrontEnd

section
variable {Node : Type} [DecidableEq Node] {tu : TranslationUnit Node}

omit [DecidableEq Node] in
theorem xmlAddSpecialization_eq (a : Node → Bool → Reg Node (Option Node)) (ts : Node) (c : Bool) :
    xmlAddSpecialization tu a ts c = if tu.treeCode ts = .functionDecl then discard (a ts c) else pure () := by
  unfold xmlAddSpecialization
  cases tu.treeCode ts <;> rfl

omit [DecidableEq Node] in
theorem xmlAddInstantiation_eq (a : Node → Bool → Reg Node (Option Node)) (t : Node) (c : Bool) :
    xmlAddInstantiation tu a t c = (requestedInstantiation tu t).elim (pure ()) fun ts => discard (a ts c) := by
  unfold xmlAddInstantiation requestedInstantiation
  dsimp only
  cases tu.treeCode (tu.typeNameOf t)
  case typeDecl =>
    dsimp only
    cases xmlFindTemplateParm (tu.tree (tu.treeType (tu.typeNameOf t))).typeTiArgs <;> rfl
  all_goals rfl

end

/-! ## Synthesizing that disturbs no request -/

section
variable {Node : Type} [DecidableEq Node]

/-- A request for `n` reads of the unit `g` what it reads of `tu`. -/
structure SameRequest (tu g : TranslationUnit Node) (n : Node) : Prop where
  code : g.treeCode n = tu.treeCode n
  resolution : resolution g n = resolution tu n
  templateParts : tu.treeCode n = .templateDecl → templateParts g n = templateParts tu n

/-- The nodes that the complete phase of the unit `tu` requests: the start nodes, what printing the nodes of the
    complete set requests, and what those requests are redirected to. -/
inductive Visited (tu : TranslationUnit Node) (starts : List Node) : Node → Prop
  | start {m : Node} : m ∈ starts → Visited tu starts m
  | issued {n m : Node} {c : Bool} : CompleteSet tu starts n → (m, c) ∈ issues tu n true → Visited tu starts m
  | redirect {n m : Node} : Visited tu starts n → m ∈ tu.redirects n → Visited tu starts m

/-- The states of the front end that attempts to synthesize requested functions lead to. -/
inductive FrontEnd.Reached (fe : FrontEnd Node) (starts : List Node) (w₀ : fe.State) : fe.State → Prop
  | initial : Reached fe starts w₀ w₀
  | synthesized {w : fe.State} {n : Node} : Reached fe starts w₀ w → Visited (fe.unit w₀) starts n →
      needsSynthesis (fe.unit w) n = true → Reached fe starts w₀ (fe.synthesizeMethod n w)

/-- **No synthesis disturbs the phase**: whatever requested functions have been synthesized, a request of the phase is
    resolved as it is in the unit at the start, and printing a node of the complete set issues the same requests. -/
structure FrontEnd.Undisturbed (fe : FrontEnd Node) (starts : List Node) (w₀ : fe.State) : Prop where
  requests : ∀ w, fe.Reached starts w₀ w → ∀ n, Visited (fe.unit w₀) starts n →
    SameRequest (fe.unit w₀) (fe.unit w) n
  issued : ∀ w, fe.Reached starts w₀ w → ∀ n, CompleteSet (fe.unit w₀) starts n →
    ∀ r, r ∈ issues (fe.unit w) n true ↔ r ∈ issues (fe.unit w₀) n true

/-- The computation `e` makes the calls of `xml_add_node_real` that the trace `r` logs, in states of `Agree`. -/
abbrev FrontEnd.Makes (fe : FrontEnd Node) (Agree : fe.State → Prop) {α : Type} (e : Live fe α) (r : Reg Node α) :
    Prop :=
  InWorld.Follows Agree (fun (s : DumpInfo Node) r => s.addNodeReal r.1 r.2) e r

variable {fe : FrontEnd Node} {Agree : fe.State → Prop}

theorem makes_xmlAddNodeReal (n : Node) (c : Bool) :
    fe.Makes Agree (fe.xmlAddNodeReal n c) (xmlAddNodeReal n c) := fun w _ hw => ⟨w, hw, rfl⟩

/-- A resolution is carried out as in a fixed unit if the requests that it makes are. -/
theorem Resolution.makes_carryOut {ρ : Resolution Node} {n : Node} {c : Bool}
    {a t : Node → Bool → Live fe (Option Node)} {b t' : Node → Bool → Reg Node (Option Node)}
    (ha : ∀ m ∈ ρ.targets, fe.Makes Agree (a m c) (b m c))
    (ht : ρ = .template → fe.Makes Agree (t n c) (t' n c)) :
    fe.Makes Agree (ρ.carryOut fe.xmlAddNodeReal a t n c) (ρ.carryOut xmlAddNodeReal b t' n c) := by
  cases ρ with
  | nothing => exact .pure none
  | itself => exact makes_xmlAddNodeReal n c
  | passedOn m => exact ha m (List.mem_singleton_self m)
  | replacedBy m => exact .bind (.discard (ha m (List.mem_singleton_self m))) (.pure none)
  | typedefOf m =>
      refine .bind (ha m (List.mem_singleton_self m)) ?_
      split
      · exact makes_xmlAddNodeReal n c
      · exact .pure none
  | each ms =>
      refine .bind ?_ (.pure none)
      rw [← Trace.each_eq_forM]
      exact .forM fun m hm => .discard (ha m hm)
  | template => exact ht rfl

variable {starts : List Node} {w₀ : fe.State}

/-- The attempt to synthesize leads to a state that is reached. -/
theorem FrontEnd.Reached.afterAttempt {w : fe.State} (hw : fe.Reached starts w₀ w) {n : Node}
    (hn : Visited (fe.unit w₀) starts n) : fe.Reached starts w₀ (fe.afterAttempt n w) := by
  unfold FrontEnd.afterAttempt
  split
  · rename_i hneeds
    exact .synthesized hw hn hneeds
  · exact hw

/-- What the body of `xml_add_node` goes on to after the attempt is the resolution in the unit before it. -/
theorem FrontEnd.Undisturbed.resolution_afterAttempt (h : fe.Undisturbed starts w₀) {w : fe.State}
    (hw : fe.Reached starts w₀ w) {n : Node} (hn : Visited (fe.unit w₀) starts n)
    (hline : ¬ ((fe.unit w).treeCode n ≠ .namespaceDecl ∧ (fe.unit w).declP n ∧
      ((fe.unit w).tree n).declSourceLine = 0)) :
    (if (fe.unit (fe.afterAttempt n w)).treeCode n = .functionDecl ∧
        ((fe.unit (fe.afterAttempt n w)).tree n).gccxmlDeclError then .nothing
      else resolveSwitch (fe.unit (fe.afterAttempt n w)) n) = resolution (fe.unit w₀) n := by
  have hbefore := h.requests w hw n hn
  have hafter := h.requests _ (hw.afterAttempt hn) n hn
  have hcode : (fe.unit (fe.afterAttempt n w)).treeCode n = (fe.unit w).treeCode n :=
    hafter.code.trans hbefore.code.symm
  rw [← hbefore.resolution, hcode]
  unfold resolution
  rw [if_neg hline]
  by_cases hfn : (fe.unit w).treeCode n = .functionDecl
  · -- the mark after the attempt is the one that the unit before it predicts
    have hmark : ((fe.unit (fe.afterAttempt n w)).tree n).gccxmlDeclError = gccxmlDeclError (fe.unit w) n := by
      unfold FrontEnd.afterAttempt gccxmlDeclError
      by_cases hneeds : needsSynthesis (fe.unit w) n = true
      · rw [if_pos hneeds, fe.marks]
        simp only [needsSynthesis, hfn, decide_true, Bool.true_and] at hneeds
        rw [hneeds, Bool.true_and]
      · rw [if_neg hneeds]
        simp only [needsSynthesis, hfn, decide_true, Bool.true_and] at hneeds
        rw [Bool.eq_false_iff.mpr hneeds, Bool.false_and, Bool.or_false]
    have hswitch : resolveSwitch (fe.unit (fe.afterAttempt n w)) n = resolveSwitch (fe.unit w) n := by
      simp only [resolveSwitch, hcode, hfn]
    rw [hmark, hswitch]
  · have hnone : fe.afterAttempt n w = w := by
      unfold FrontEnd.afterAttempt
      rw [if_neg fun hneeds => hfn (by simp_all [needsSynthesis])]
    rw [hnone, if_neg fun hd => hfn hd.1, if_neg fun hd => hfn hd.1]

/-- A round over the specializations makes the calls that it makes in the unit at the start. -/
theorem makes_xmlAddSpecialization {tu : TranslationUnit Node} {ts : Node} {c : Bool}
    {a : Node → Bool → Live fe (Option Node)} {b : Node → Bool → Reg Node (Option Node)}
    (hcode : ∀ w, Agree w → ((fe.unit w).treeCode ts = .functionDecl ↔ tu.treeCode ts = .functionDecl))
    (ha : tu.treeCode ts = .functionDecl → fe.Makes Agree (a ts c) (b ts c)) :
    fe.Makes Agree (fe.xmlAddSpecialization a ts c) (xmlAddSpecialization tu b ts c) := by
  intro w s hw
  rw [FrontEnd.xmlAddSpecialization_apply, xmlAddSpecialization_eq]
  by_cases hfn : tu.treeCode ts = .functionDecl
  · rw [if_pos hfn, if_pos ((hcode w hw).mpr hfn)]
    exact (ha hfn).discard w s hw
  · rw [if_neg hfn, if_neg fun h => hfn ((hcode w hw).mp h)]
    exact InWorld.Follows.pure () w s hw

/-- A round over the instantiations makes the calls that it makes in the unit at the start. -/
theorem makes_xmlAddInstantiation {tu : TranslationUnit Node} {t : Node} {c : Bool}
    {a : Node → Bool → Live fe (Option Node)} {b : Node → Bool → Reg Node (Option Node)}
    (hreq : ∀ w, Agree w → requestedInstantiation (fe.unit w) t = requestedInstantiation tu t)
    (ha : ∀ ts ∈ requestedInstantiation tu t, fe.Makes Agree (a ts c) (b ts c)) :
    fe.Makes Agree (fe.xmlAddInstantiation a t c) (xmlAddInstantiation tu b t c) := by
  intro w s hw
  rw [FrontEnd.xmlAddInstantiation_apply, xmlAddInstantiation_eq, hreq w hw]
  cases hts : requestedInstantiation tu t with
  | none => exact InWorld.Follows.pure () w s hw
  | some ts => exact (ha ts hts).discard w s hw

omit [DecidableEq Node] in
theorem mem_redirects_requestedInstantiation {tu : TranslationUnit Node} {td t ts : Node}
    (hcode : tu.treeCode td = .templateDecl) (ht : t ∈ (tu.tree td).declTemplateInstantiations)
    (hts : ts ∈ requestedInstantiation tu t) : ts ∈ tu.redirects td := by
  unfold requestedInstantiation at hts
  split at hts
  · rename_i hdecl
    obtain rfl : tu.typeNameOf t = ts := by simpa using hts
    exact mem_redirects_instantiation hcode ht hdecl.1
  · simp at hts

/-- **A template** makes the calls that it makes in the unit at the start. -/
theorem FrontEnd.Undisturbed.makes_xmlAddTemplateDecl (h : fe.Undisturbed starts w₀) {td : Node}
    {a : Node → Bool → Live fe (Option Node)} {b : Node → Bool → Reg Node (Option Node)}
    (htd : Visited (fe.unit w₀) starts td) (hcode : (fe.unit w₀).treeCode td = .templateDecl)
    (ha : ∀ m, Visited (fe.unit w₀) starts m → (fe.unit w₀).rank m < (fe.unit w₀).rank td →
      ∀ c, fe.Makes (fe.Reached starts w₀) (a m c) (b m c))
    {fuel fuel' : Nat} (hf : (fe.unit w₀).rank td < fuel) (hf' : (fe.unit w₀).rank td < fuel') (c : Bool) :
    fe.Makes (fe.Reached starts w₀) (fe.xmlAddTemplateDecl a fuel td c)
      (xmlAddTemplateDeclFuel (fe.unit w₀) b fuel' td c) := by
  induction fuel generalizing fuel' td c with
  | zero => exact absurd hf (Nat.not_lt_zero _)
  | succ fuel ih =>
      obtain ⟨fuel', rfl⟩ : ∃ k, fuel' = k + 1 := ⟨fuel' - 1, by omega⟩
      have hparts : ∀ w, fe.Reached starts w₀ w → templateParts (fe.unit w) td = templateParts (fe.unit w₀) td :=
        fun w hw => (h.requests w hw td htd).templateParts hcode
      have hgo : ∀ m ∈ (fe.unit w₀).redirects td, ∀ c, fe.Makes (fe.Reached starts w₀) (a m c) (b m c) :=
        fun m hm => ha m (.redirect htd hm) ((fe.unit w₀).rank_redirects hm)
      refine .world fun w hw => ?_
      dsimp only
      rw [specializations_of_templateParts (hparts w hw)]
      refine .bind (.forM fun ts hts => makes_xmlAddSpecialization
        (fun w hw => treeCode_of_templateParts (hparts w hw) hts) fun hfn => ?_) ?_
      · exact hgo ts (by simp [TreeGraph.redirects, hcode, hts, hfn]) c
      refine .world fun w hw => ?_
      rw [instantiations_of_templateParts (hparts w hw)]
      refine .bind (.forM fun t ht => makes_xmlAddInstantiation
        (fun w hw => requestedInstantiation_of_templateParts (hparts w hw) ht) fun ts hts => ?_) ?_
      · exact hgo ts (mem_redirects_requestedInstantiation hcode ht hts) c
      refine .world fun w hw => .bind (.when fun _ => ?_) (.pure none)
      rw [members_of_templateParts (hparts w hw)]
      refine .forM fun tl htl => .discard ?_
      have hrank := rank_memberTemplates hcode htl
      exact ih (.redirect htd (by simp [TreeGraph.redirects, hcode, htl])) (mem_memberTemplates_code htl)
        (fun m hm hlt => ha m hm (by omega)) (by omega) (by omega) true

/-- **A request** makes the calls that it makes in the unit at the start. -/
theorem FrontEnd.Undisturbed.makes_xmlAddNode (h : fe.Undisturbed starts w₀) {n : Node}
    (hn : Visited (fe.unit w₀) starts n) {fuel : Nat} (hf : (fe.unit w₀).rank n < fuel) (c : Bool) :
    fe.Makes (fe.Reached starts w₀) (fe.xmlAddNode fuel n c) (GccXml.xmlAddNode (fe.unit w₀) n c) := by
  induction fuel generalizing n c with
  | zero => exact absurd hf (Nat.not_lt_zero _)
  | succ fuel ih =>
      rw [xmlAddNode_eq, xmlAddNodeBody_eq_carryOut]
      intro w s hw
      show ∃ w', _ ∧ fe.xmlAddNodeBody (fe.xmlAddNode fuel) (fuel + 1) n c (w, s) = _
      unfold FrontEnd.xmlAddNodeBody
      rw [world_bind_apply]
      split
      · -- a declaration without a source line is skipped
        rename_i hline
        have hnothing : resolution (fe.unit w₀) n = .nothing := by
          rw [← (h.requests w hw n hn).resolution]
          exact if_pos hline
        rw [hnothing]
        exact InWorld.Follows.pure none w s hw
      · rename_i hline
        rw [bind_apply_of_eq (FrontEnd.synthesizeFirst_apply n w s), world_bind_apply]
        have hres := h.resolution_afterAttempt hw hn hline
        have hw' := hw.afterAttempt hn
        generalize fe.afterAttempt n w = w' at hres hw'
        have hcarry : fe.Makes (fe.Reached starts w₀)
            ((resolution (fe.unit w₀) n).carryOut fe.xmlAddNodeReal (fe.xmlAddNode fuel)
              (fe.xmlAddTemplateDecl (fe.xmlAddNode fuel) (fuel + 1)) n c)
            ((resolution (fe.unit w₀) n).carryOut GccXml.xmlAddNodeReal (GccXml.xmlAddNode (fe.unit w₀))
              (GccXml.xmlAddTemplateDecl (fe.unit w₀) (GccXml.xmlAddNode (fe.unit w₀))) n c) := by
          refine Resolution.makes_carryOut (fun m hm => ?_) fun htemplate => ?_
          · have hm := targets_resolution hm
            have hrank := (fe.unit w₀).rank_redirects hm
            exact ih (.redirect hn hm) (by omega) c
          · have hcode := treeCode_of_resolution_template htemplate
            exact h.makes_xmlAddTemplateDecl hn hcode (fun m hm hlt c => ih hm (by omega) c) hf
              (Nat.lt_succ_self _) c
        obtain ⟨w'', hw'', hrun⟩ := hcarry w' s hw'
        refine ⟨w'', hw'', ?_⟩
        rw [← hrun, ← hres]
        dsimp only
        split
        · rfl
        · exact FrontEnd.xmlAddNodeSwitch_apply (fuel + 1) n c w' s

/-! ## Two units with the same requests -/

section
variable {tu g : TranslationUnit Node}

omit [DecidableEq Node] in
theorem Resolution.carryOut_congr {ρ : Resolution Node} {n : Node} {c : Bool}
    {real a b t t' : Node → Bool → Reg Node (Option Node)} (ha : ∀ m ∈ ρ.targets, a m c = b m c)
    (ht : ρ = .template → t n c = t' n c) : ρ.carryOut real a t n c = ρ.carryOut real b t' n c := by
  cases ρ with
  | nothing => rfl
  | itself => rfl
  | passedOn m => exact ha m (List.mem_singleton_self m)
  | replacedBy m => simp only [Resolution.carryOut, ha m (List.mem_singleton_self m)]
  | typedefOf m => simp only [Resolution.carryOut, ha m (List.mem_singleton_self m)]
  | each ms =>
      simp only [Resolution.carryOut, ← Trace.each_eq_forM]
      rw [each_congr fun m hm => by rw [ha m hm]]
  | template => exact ht rfl

variable {V : Node → Prop}

/-- A template registers the same in both units. -/
theorem xmlAddTemplateDeclFuel_unit (hsame : ∀ n, V n → SameRequest tu g n)
    (hredirect : ∀ n, V n → ∀ m ∈ tu.redirects n, V m) {a b : Node → Bool → Reg Node (Option Node)} {td : Node}
    (htd : V td) (hcode : tu.treeCode td = .templateDecl)
    (h : ∀ m, V m → tu.rank m < tu.rank td → ∀ c, a m c = b m c) {fuel fuel' : Nat} (hf : g.rank td < fuel)
    (hf' : tu.rank td < fuel') (c : Bool) :
    xmlAddTemplateDeclFuel g a fuel td c = xmlAddTemplateDeclFuel tu b fuel' td c := by
  induction fuel generalizing fuel' td c with
  | zero => exact absurd hf (Nat.not_lt_zero _)
  | succ fuel ih =>
      obtain ⟨fuel', rfl⟩ : ∃ k, fuel' = k + 1 := ⟨fuel' - 1, by omega⟩
      have hparts := (hsame td htd).templateParts hcode
      have hgo : ∀ m ∈ tu.redirects td, ∀ c, a m c = b m c := fun m hm =>
        h m (hredirect td htd m hm) (tu.rank_redirects hm)
      have hspec : ∀ ts ∈ (tu.tree td).declTemplateSpecializations,
          xmlAddSpecialization g a ts c = xmlAddSpecialization tu b ts c := by
        intro ts hts
        rw [xmlAddSpecialization_eq, xmlAddSpecialization_eq]
        by_cases hfn : tu.treeCode ts = .functionDecl
        · rw [if_pos hfn, if_pos ((treeCode_of_templateParts hparts hts).mpr hfn),
            hgo ts (by simp [TreeGraph.redirects, hcode, hts, hfn])]
        · rw [if_neg hfn, if_neg fun hg => hfn ((treeCode_of_templateParts hparts hts).mp hg)]
      have hinst : ∀ t ∈ (tu.tree td).declTemplateInstantiations,
          xmlAddInstantiation g a t c = xmlAddInstantiation tu b t c := by
        intro t ht
        rw [xmlAddInstantiation_eq, xmlAddInstantiation_eq, requestedInstantiation_of_templateParts hparts ht]
        cases hts : requestedInstantiation tu t with
        | none => rfl
        | some ts =>
            show discard (a ts c) = discard (b ts c)
            rw [hgo ts (mem_redirects_requestedInstantiation hcode ht hts)]
      have hmember : ∀ tl ∈ tu.memberTemplates td,
          xmlAddTemplateDeclFuel g a fuel tl true = xmlAddTemplateDeclFuel tu b fuel' tl true := by
        intro tl htl
        have hg : g.rank tl < g.rank td :=
          rank_memberTemplates ((hsame td htd).code.trans hcode) (by rw [members_of_templateParts hparts]; exact htl)
        have hrank := rank_memberTemplates hcode htl
        exact ih (hredirect td htd tl (by simp [TreeGraph.redirects, hcode, htl])) (mem_memberTemplates_code htl)
          (fun m hm hlt => h m hm (by omega)) (by omega) (by omega) true
      have hmembers : Trace.each (tu.memberTemplates td) (fun tl => discard (xmlAddTemplateDeclFuel g a fuel tl true))
          = Trace.each (tu.memberTemplates td) fun tl => discard (xmlAddTemplateDeclFuel tu b fuel' tl true) :=
        each_congr fun tl htl => by rw [hmember tl htl]
      simp only [xmlAddTemplateDeclFuel, specializations_of_templateParts hparts,
        instantiations_of_templateParts hparts, members_of_templateParts hparts, each_congr hspec, each_congr hinst,
        hmembers]

/-- **Requests in two units**: where a request reads the same, it makes the same calls. -/
theorem xmlAddNode_unit (hsame : ∀ n, V n → SameRequest tu g n) (hredirect : ∀ n, V n → ∀ m ∈ tu.redirects n, V m)
    {n : Node} (hn : V n) (c : Bool) : xmlAddNode g n c = xmlAddNode tu n c := by
  induction hr : tu.rank n using Nat.strongRecOn generalizing n c with
  | _ r ih =>
      rw [xmlAddNode_eq, xmlAddNode_eq, xmlAddNodeBody_eq_carryOut, xmlAddNodeBody_eq_carryOut,
        (hsame n hn).resolution]
      refine Resolution.carryOut_congr (fun m hm => ?_) fun htemplate => ?_
      · have hm := targets_resolution hm
        exact ih _ (hr ▸ tu.rank_redirects hm) (hredirect n hn m hm) c rfl
      · exact xmlAddTemplateDeclFuel_unit hsame hredirect hn (treeCode_of_resolution_template htemplate)
          (fun m hm hlt c => ih _ (hr ▸ hlt) hm c rfl) (Nat.lt_succ_self _) (Nat.lt_succ_self _) c

end

end

end GccXml
