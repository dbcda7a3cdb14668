import GccXml.Lib.Interference
import GccXml.Xml.CompletePhase

namespace GccXml

/-! # `Xml.Synthesis` — a unit that changes while it is dumped

`xml_add_node` tries to synthesize a compiler-generated function before it looks for the mark `GCCXML_DECL_ERROR` on it.
`synthesize_method` is a part of the front end: it builds the body of the function, and the overload resolution in that
body can instantiate templates, which `register_specialization` enters in the lists that `xml_add_template_decl` reads.
So the unit that a request reads is the one that earlier requests have left.

`Xml.AddNode` and `Xml.Dump` describe the dump of one unit, where the attempt is a flag of the function. Here the unit
is what the front end shows in its present state. `FrontEnd` holds the states, the unit of each state and the change
that `synthesize_method` makes; nothing else of the front end runs during the dump. The functions below are those of
`Xml.AddNode` and `Xml.Dump` once more, in the order of the source: each reads the unit where the source reads the
trees, after the requests before it. A loop over a list reads the list when it begins, and printing a node issues the
requests of the unit as it is when the printing begins; both are read from the front, and what is entered during the
loop is entered in front of what is read. What the phase writes is left out, because no request depends on it.

The recursion of `xml_add_node` and the loop of `xml_dump` have no bound of their own, and a unit that changes need not
keep one. Their fuel is therefore a parameter, and a run that uses it up has no result. -/

open InWorld

/-- The front end as the dump sees it: its states, the unit that `xml.c` reads in a state, and `synthesize_method`. -/
structure FrontEnd (Node : Type) where
  State : Type
  unit : State → TranslationUnit Node
  /-- `synthesize_method`, called for a function. -/
  synthesizeMethod : Node → State → State
  /-- The error messages of the attempt have been converted to a mark of the function. -/
  marks : ∀ n w, ((unit (synthesizeMethod n w)).tree n).gccxmlDeclError =
    (((unit w).tree n).gccxmlDeclError || ((unit w).tree n).synthesizeError)

/-- A function of `xml.c` that runs with the front end `fe`. -/
abbrev Live {Node : Type} (fe : FrontEnd Node) : Type → Type := InWorld fe.State (DumpInfo Node)

/-- The functions that `xml_add_node` tries to synthesize: compiler-generated, without a body, and not defined
    elsewhere. -/
def needsSynthesis {Node : Type} (tu : TranslationUnit Node) (n : Node) : Bool :=
  tu.treeCode n = .functionDecl && (tu.tree n).declArtificial && (tu.tree n).declInitial.isNone &&
    (!tu.declReallyExtern n || (tu.tree n).declInline)

namespace FrontEnd

section
variable {Node : Type} [DecidableEq Node] (fe : FrontEnd Node)

/-! ## Requests -/

/-- `xml_add_node_real`. -/
def xmlAddNodeReal (n : Node) (complete : Bool) : Live fe (Option Node) := do
  act fun s => s.addNodeReal n complete
  pure (some n)

section
variable (addNode : Node → Bool → Live fe (Option Node))

/-- `xml_add_typedef`. -/
def xmlAddTypedef (td : Node) (complete : Bool) : Live fe (Option Node) := do
  let tu := fe.unit (← world)
  if (tu.tree td).declOriginalType = none ∧
      ((tu.tree (tu.treeType td)).typeName.any fun name =>
        (tu.tree td).declName = (tu.tree name).declName ∧
          (tu.tree td).declContext = (tu.tree name).declContext) then
    discard (addNode (tu.treeType td) complete)
    pure none
  else
    let target ← addNode (tu.typeMainVariant (tu.typedefTarget td)) complete
    if target.isSome then xmlAddNodeReal fe td complete else pure none

/-- `xml_add_type_decl`. -/
def xmlAddTypeDecl (td : Node) (complete : Bool) : Live fe (Option Node) := do
  let tu := fe.unit (← world)
  let t := tu.treeType td
  match tu.treeCode t with
  | .arrayType | .langType | .pointerType | .referenceType | .integerType | .voidType | .booleanType
  | .realType | .complexType | .functionType | .typenameType | .templateTypeParm =>
      xmlAddTypedef fe addNode td complete
  | .enumeralType | .unionType | .qualUnionType | .recordType =>
      if tu.typePtrmemfuncP t then xmlAddTypedef fe addNode td complete
      else if isTypeDefinition tu td then addNode t complete
      else xmlAddTypedef fe addNode td complete
  | _ => xmlAddNodeReal fe td complete

/-- `xml_add_overload`. -/
def xmlAddOverload (o : Node) (complete : Bool) : Live fe (Option Node) := do
  let tu := fe.unit (← world)
  (tu.ovlChain o).forM fun f => discard (addNode f complete)
  pure none

/-- One round of the loop over `DECL_TEMPLATE_SPECIALIZATIONS`. -/
def xmlAddSpecialization (ts : Node) (complete : Bool) : Live fe Unit := do
  let tu := fe.unit (← world)
  match tu.treeCode ts with
  | .functionDecl => discard (addNode ts complete)
  | _ => pure ()

/-- One round of the loop over `DECL_TEMPLATE_INSTANTIATIONS`. -/
def xmlAddInstantiation (t : Node) (complete : Bool) : Live fe Unit := do
  let tu := fe.unit (← world)
  let ts := tu.typeNameOf t
  match tu.treeCode ts with
  | .typeDecl =>
      if xmlFindTemplateParm (tu.tree (tu.treeType ts)).typeTiArgs then pure ()
      else discard (addNode ts complete)
  | _ => pure ()

/-- `xml_add_template_decl`. -/
def xmlAddTemplateDecl : Nat → Node → Bool → Live fe (Option Node)
  | 0, _, _ => diverge
  | fuel + 1, td, complete => do
      let tu := fe.unit (← world)
      (tu.tree td).declTemplateSpecializations.forM fun ts => xmlAddSpecialization fe addNode ts complete
      let tu := fe.unit (← world)
      (tu.tree td).declTemplateInstantiations.forM fun t => xmlAddInstantiation fe addNode t complete
      let tu := fe.unit (← world)
      InWorld.when complete ((tu.memberTemplates td).forM fun tl => discard (xmlAddTemplateDecl fuel tl true))
      pure none

/-- The attempt to synthesize `n`, if it is a function that needs it. -/
def synthesizeFirst (n : Node) : Live fe Unit := do
  let tu := fe.unit (← world)
  if needsSynthesis tu n then change (fe.synthesizeMethod n) else pure ()

/-- The `switch` of `xml_add_node`. -/
def xmlAddNodeSwitch (fuel : Nat) (n : Node) (complete : Bool) : Live fe (Option Node) := do
  let tu := fe.unit (← world)
  match tu.treeCode n with
  | .namespaceDecl => xmlAddNodeReal fe n complete
  | .typeDecl => xmlAddTypeDecl fe addNode n complete
  | .treeList =>
      match (tu.tree n).treeValue with
      | some o => xmlAddOverload fe addNode o complete
      | none => pure none
  | .overload => xmlAddOverload fe addNode n complete
  | .templateDecl => xmlAddTemplateDecl fe addNode fuel n complete
  | .unionType | .qualUnionType | .recordType =>
      if tu.typePtrmemfuncP n then addNode (tu.typePtrmemfuncFnType n) complete
      else if !(tu.tree n).classtypeIsTemplate then xmlAddNodeReal fe n complete
      else pure none
  | .constDecl => pure none
  | _ => xmlAddNodeReal fe n complete

/-- The body of `xml_add_node`. -/
def xmlAddNodeBody (fuel : Nat) (n : Node) (complete : Bool) : Live fe (Option Node) := do
  let tu := fe.unit (← world)
  if tu.treeCode n ≠ .namespaceDecl ∧ tu.declP n ∧ (tu.tree n).declSourceLine = 0 then pure none
  else
    synthesizeFirst fe n
    let tu := fe.unit (← world)
    if tu.treeCode n = .functionDecl ∧ (tu.tree n).gccxmlDeclError then pure none
    else xmlAddNodeSwitch fe addNode fuel n complete

end

/-- **`xml_add_node`** with the front end. -/
def xmlAddNode : Nat → Node → Bool → Live fe (Option Node)
  | 0, _, _ => diverge
  | fuel + 1, n, complete => xmlAddNodeBody fe (xmlAddNode fuel) (fuel + 1) n complete

/-! ## The phase

`order` gives the order in which printing a node issues its requests. The source has the one of `Xml.Output`. -/

variable (order : Node → List (Node × Bool) → List (Node × Bool))

/-- `xml_dump_tree_node` for the queue entry `n`, as far as its requests go. -/
def xmlDumpNode (fuel : Nat) (n : Node) : Live fe Unit := do
  let tu := fe.unit (← world)
  let complete := (← state).complete n
  act fun s => { s with dumped := s.dumped ++ [(n, complete)] }
  (order n (issues tu n complete)).forM fun r => discard (xmlAddNode fe fuel r.1 r.2)

/-- `xml_dump`, with `fuel` for its loop and `depth` for the recursion of each request. -/
def xmlDump (depth : Nat) : Nat → Live fe Unit
  | 0 => do if (← state).queue.isEmpty then pure () else diverge
  | fuel + 1 => do
      match (← state).queue with
      | [] => pure ()
      | n :: rest =>
          act fun s => { s with queue := rest }
          xmlDumpNode fe order depth n
          xmlDump depth fuel

/-- **The complete phase** from the state `w` of the front end: the requests for the start nodes and the first
    `xml_dump`. -/
def completePhase (starts : List Node) (depth fuel : Nat) (w : fe.State) : Option (fe.State × DumpInfo Node) :=
  let run : Live fe Unit := do
    starts.forM fun m => discard (xmlAddNode fe depth m true)
    xmlDump fe order depth fuel
  (run (w, {})).map (·.2)

/-- The order of the source. -/
def sourceOrder : Node → List (Node × Bool) → List (Node × Bool) := fun _ requests => requests

/-- **The complete phase ends** in the state `w` of the front end and the state `s` of the dump. -/
def PhaseEnds (starts : List Node) (w₀ w : fe.State) (s : DumpInfo Node) : Prop :=
  ∃ depth fuel, fe.completePhase order starts depth fuel w₀ = some (w, s)

/-! ## The fuel

A run that ends does not depend on its fuel: with more of it, each function ends where it did. -/

section
variable {fe order}
variable {a b : Node → Bool → Live fe (Option Node)}

theorem below_xmlAddTypedef (h : ∀ m c, Below (a m c) (b m c)) (td : Node) (c : Bool) :
    Below (xmlAddTypedef fe a td c) (xmlAddTypedef fe b td c) := by
  refine .bind (.refl _) fun w => ?_
  dsimp only
  split
  · exact .bind (h _ c).discard fun _ => .refl _
  · exact .bind (h _ c) fun _ => .refl _

theorem below_xmlAddTypeDecl (h : ∀ m c, Below (a m c) (b m c)) (td : Node) (c : Bool) :
    Below (xmlAddTypeDecl fe a td c) (xmlAddTypeDecl fe b td c) := by
  have htypedef := below_xmlAddTypedef h td c
  refine .bind (.refl _) fun w => ?_
  dsimp only
  cases (fe.unit w).treeCode ((fe.unit w).treeType td)
  case enumeralType | unionType | qualUnionType | recordType =>
    dsimp only
    by_cases hp : (fe.unit w).typePtrmemfuncP ((fe.unit w).treeType td) = true
    · rw [if_pos hp, if_pos hp]
      exact htypedef
    · rw [if_neg hp, if_neg hp]
      by_cases hd : isTypeDefinition (fe.unit w) td = true
      · rw [if_pos hd, if_pos hd]
        exact h _ c
      · rw [if_neg hd, if_neg hd]
        exact htypedef
  all_goals first | exact htypedef | exact .refl _

omit [DecidableEq Node] in
theorem below_xmlAddOverload (h : ∀ m c, Below (a m c) (b m c)) (o : Node) (c : Bool) :
    Below (xmlAddOverload fe a o c) (xmlAddOverload fe b o c) :=
  .bind (.refl _) fun _ => .bind (.forM fun f => (h f c).discard) fun _ => .refl _

omit [DecidableEq Node] in
theorem below_xmlAddSpecialization (h : ∀ m c, Below (a m c) (b m c)) (ts : Node) (c : Bool) :
    Below (xmlAddSpecialization fe a ts c) (xmlAddSpecialization fe b ts c) := by
  refine .bind (.refl _) fun w => ?_
  dsimp only
  cases (fe.unit w).treeCode ts
  case functionDecl => exact (h ts c).discard
  all_goals exact .refl _

omit [DecidableEq Node] in
theorem below_xmlAddInstantiation (h : ∀ m c, Below (a m c) (b m c)) (t : Node) (c : Bool) :
    Below (xmlAddInstantiation fe a t c) (xmlAddInstantiation fe b t c) := by
  refine .bind (.refl _) fun w => ?_
  dsimp only
  cases (fe.unit w).treeCode ((fe.unit w).typeNameOf t)
  case typeDecl =>
    dsimp only
    cases xmlFindTemplateParm ((fe.unit w).tree ((fe.unit w).treeType ((fe.unit w).typeNameOf t))).typeTiArgs
    · exact (h _ c).discard
    · exact .refl _
  all_goals exact .refl _

omit [DecidableEq Node] in
theorem below_xmlAddTemplateDecl (h : ∀ m c, Below (a m c) (b m c)) {fuel fuel' : Nat} (hf : fuel ≤ fuel')
    (td : Node) (c : Bool) : Below (xmlAddTemplateDecl fe a fuel td c) (xmlAddTemplateDecl fe b fuel' td c) := by
  induction fuel generalizing fuel' td c with
  | zero => exact .diverge _
  | succ fuel ih =>
      obtain ⟨fuel', rfl⟩ : ∃ k, fuel' = k + 1 := ⟨fuel' - 1, by omega⟩
      refine .bind (.refl _) fun _ => .bind (.forM fun ts => below_xmlAddSpecialization h ts c) fun _ => ?_
      refine .bind (.refl _) fun _ => .bind (.forM fun t => below_xmlAddInstantiation h t c) fun _ => ?_
      refine .bind (.refl _) fun _ => .bind (.when (.forM fun tl => ?_)) fun _ => .refl _
      exact (ih (by omega) tl true).discard

theorem below_xmlAddNodeSwitch (h : ∀ m c, Below (a m c) (b m c)) {fuel fuel' : Nat} (hf : fuel ≤ fuel')
    (n : Node) (c : Bool) : Below (xmlAddNodeSwitch fe a fuel n c) (xmlAddNodeSwitch fe b fuel' n c) := by
  refine .bind (.refl _) fun w => ?_
  dsimp only
  cases (fe.unit w).treeCode n
  case typeDecl => exact below_xmlAddTypeDecl h n c
  case treeList =>
    dsimp only
    cases ((fe.unit w).tree n).treeValue with
    | none => exact .refl _
    | some o => exact below_xmlAddOverload h o c
  case overload => exact below_xmlAddOverload h n c
  case templateDecl => exact below_xmlAddTemplateDecl h hf n c
  case unionType | qualUnionType | recordType =>
    dsimp only
    split
    · exact h _ c
    · exact .refl _
  all_goals exact .refl _

theorem below_xmlAddNode {fuel fuel' : Nat} (hf : fuel ≤ fuel') (n : Node) (c : Bool) :
    Below (xmlAddNode fe fuel n c) (xmlAddNode fe fuel' n c) := by
  induction fuel generalizing fuel' n c with
  | zero => exact .diverge _
  | succ fuel ih =>
      obtain ⟨fuel', rfl⟩ : ∃ k, fuel' = k + 1 := ⟨fuel' - 1, by omega⟩
      refine .bind (.refl _) fun w => ?_
      dsimp only
      split
      · exact .refl _
      · refine .bind (.refl _) fun _ => .bind (.refl _) fun w => ?_
        split
        · exact .refl _
        · exact below_xmlAddNodeSwitch (fun m c => ih (by omega) m c) hf n c

theorem below_xmlDump {depth depth' : Nat} (hd : depth ≤ depth') {fuel fuel' : Nat} (hf : fuel ≤ fuel') :
    Below (xmlDump fe order depth fuel) (xmlDump fe order depth' fuel') := by
  induction fuel generalizing fuel' with
  | zero =>
      cases fuel' with
      | zero => exact .refl _
      | succ fuel' =>
          refine .bind (.refl _) fun s => ?_
          cases hq : s.queue with
          | nil => exact .refl _
          | cons n rest => exact .diverge _
  | succ fuel ih =>
      obtain ⟨fuel', rfl⟩ : ∃ k, fuel' = k + 1 := ⟨fuel' - 1, by omega⟩
      refine .bind (.refl _) fun s => ?_
      cases s.queue with
      | nil => exact .refl _
      | cons n rest =>
          refine .bind (.refl _) fun _ => .bind ?_ fun _ => ih (by omega)
          refine .bind (.refl _) fun w => .bind (.refl _) fun s => .bind (.refl _) fun _ => ?_
          exact .forM fun r => (below_xmlAddNode hd r.1 r.2).discard

/-- With more fuel the phase ends as it did. -/
theorem completePhase_mono {starts : List Node} {depth depth' fuel fuel' : Nat} (hd : depth ≤ depth')
    (hf : fuel ≤ fuel') {w₀ : fe.State} {r : fe.State × DumpInfo Node}
    (h : fe.completePhase order starts depth fuel w₀ = some r) :
    fe.completePhase order starts depth' fuel' w₀ = some r := by
  unfold completePhase at h ⊢
  dsimp only at h ⊢
  rw [Option.map_eq_some_iff] at h ⊢
  obtain ⟨q, hq, hr⟩ := h
  refine ⟨q, ?_, hr⟩
  exact Below.bind (.forM fun m => (below_xmlAddNode hd m true).discard) (fun _ => below_xmlDump hd hf) _ q hq

/-- **The phase ends in one state.** -/
theorem PhaseEnds.unique {starts : List Node} {w₀ w w' : fe.State} {s s' : DumpInfo Node}
    (h : fe.PhaseEnds order starts w₀ w s) (h' : fe.PhaseEnds order starts w₀ w' s') : w' = w ∧ s' = s := by
  obtain ⟨depth, fuel, hrun⟩ := h
  obtain ⟨depth', fuel', hrun'⟩ := h'
  have hboth := completePhase_mono (Nat.le_max_left depth depth') (Nat.le_max_left fuel fuel') hrun
  have hboth' := completePhase_mono (Nat.le_max_right depth depth') (Nat.le_max_right fuel fuel') hrun'
  rw [hboth] at hboth'
  cases hboth'
  exact ⟨rfl, rfl⟩

end

end

end FrontEnd

end GccXml
