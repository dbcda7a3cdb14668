import GccXml.Xml.ExactlyOnce
import GccXml.Xml.FileTable

namespace GccXml

/-! # `Xml.Addresses` — what the dump owes to the addresses of the nodes

Two runs over one unit whose nodes are at different addresses. The only address that is printed is the attribute `node`
of an `Unimplemented` element; the only order of addresses that is used is that of the splay tree of dump nodes, from
which the nodes that stayed incomplete are queued.

`relocate` gives the same unit at other addresses, and every function of the model is compared on the two. Most of them
do not see the difference, and are equal: the answers to requests, the blocks of attributes, the elements of a node but
the one that prints an address. To leave that one out, addresses are taken out of the text (`withoutNode`), of states
as well as of logs, and the claim for a run is that what both runs do agrees without them. One effect keeps this, so a
log does, one round of `xml_dump`, and the loop.

Between the phases the order comes in. If the addresses order the incomplete nodes alike (`SameOrder`), the second
phase begins with the same queue and goes the same way. If they do not, `Renumbering` says what is left. -/

open DumpInfo

section
variable {Node : Type}

/-! ## The same unit at other addresses -/

/-- Addresses for the nodes of a unit, and the nodes in their order. -/
structure Layout (Node : Type) where
  nodes : List Node
  mem_nodes : ∀ n, n ∈ nodes
  address : Node → Nat
  nodes_sorted : nodes.Pairwise fun a b => address a < address b

/-- **The same unit with its nodes at the addresses of `l`.** -/
def TranslationUnit.relocate (tu : TranslationUnit Node) (l : Layout Node) : TranslationUnit Node :=
  { tu with nodes := l.nodes, mem_nodes := l.mem_nodes, address := l.address, nodes_sorted := l.nodes_sorted }

/-! ## Text without addresses -/

/-- A fragment without the value of the attribute `node`. -/
def Frag.withoutNode {ι φ : Type} (frag : Frag Node ι φ) : Frag Node ι φ :=
  match frag with
  | .attr "node" _ => .attr "node" []
  | _ => frag

/-- An effect without the value of the attribute `node`. -/
def Action.withoutNode : Action Node → Action Node
  | .emit frag => .emit frag.withoutNode
  | action => action

/-- The state with the text as it is without the values of the attribute `node`. -/
def DumpInfo.withoutNode (s : DumpInfo Node) : DumpInfo Node := { s with file := s.file.map Frag.withoutNode }

theorem Frag.withoutNode_attr_of_ne {ι φ : Type} {name : String} (value : List (Piece Node ι φ)) (h : name ≠ "node") :
    (Frag.attr name value).withoutNode = .attr name value := by
  unfold Frag.withoutNode
  split
  · rename_i heq
    cases heq
    exact absurd rfl h
  · rfl

theorem withoutNode_fill {ι φ : Type} (index : ι → Nat) (fileIndex : φ → Nat) (frag : Frag Node ι φ) :
    (frag.fill index fileIndex).withoutNode = frag.withoutNode.fill index fileIndex := by
  cases frag with
  | attr name value =>
      by_cases hname : name = "node"
      · subst hname
        rfl
      · simp only [Frag.fill, Frag.withoutNode_attr_of_ne _ hname]
  | _ => rfl

end

section
variable {Node : Type} [DecidableEq Node] {tu : TranslationUnit Node} {l : Layout Node}

/-! ## What the addresses are not used for -/

theorem xmlAddNode_relocate : xmlAddNode (tu.relocate l) = xmlAddNode tu := by
  have htemplate : ∀ a : Node → Bool → Reg Node (Option Node), ∀ fuel td c,
      xmlAddTemplateDeclFuel (tu.relocate l) a fuel td c = xmlAddTemplateDeclFuel tu a fuel td c := by
    intro a fuel
    induction fuel with
    | zero => exact fun td c => rfl
    | succ fuel ih =>
        intro td c
        unfold xmlAddTemplateDeclFuel
        simp only [ih]
        rfl
  have hfuel : ∀ fuel, xmlAddNodeFuel (tu.relocate l) fuel = xmlAddNodeFuel tu fuel := by
    intro fuel
    induction fuel with
    | zero => rfl
    | succ fuel ih =>
        funext n c
        unfold xmlAddNodeFuel xmlAddNodeBody xmlAddTemplateDecl
        rw [ih, htemplate]
        rfl
  funext n c
  exact congrFun (congrFun (hfuel _) n) c

theorem addNode_relocate : addNode (tu.relocate l) = addNode tu := by
  unfold addNode
  rw [xmlAddNode_relocate]

theorem xmlGetIdref_relocate : xmlGetIdref (tu.relocate l) = xmlGetIdref tu := by
  unfold xmlGetIdref
  rw [addNode_relocate]
  rfl

theorem xmlPrintTypeIdref_relocate : xmlPrintTypeIdref (tu.relocate l) = xmlPrintTypeIdref tu := by
  unfold xmlPrintTypeIdref
  rw [xmlGetIdref_relocate, addNode_relocate]

theorem xmlPrintTypeAttribute_relocate : xmlPrintTypeAttribute (tu.relocate l) = xmlPrintTypeAttribute tu := by
  unfold xmlPrintTypeAttribute
  rw [xmlPrintTypeIdref_relocate]

theorem xmlPrintReturnsAttribute_relocate : xmlPrintReturnsAttribute (tu.relocate l) = xmlPrintReturnsAttribute tu := by
  unfold xmlPrintReturnsAttribute
  rw [xmlPrintTypeIdref_relocate]

theorem xmlPrintContextAttribute_relocate : xmlPrintContextAttribute (tu.relocate l) = xmlPrintContextAttribute tu := by
  unfold xmlPrintContextAttribute
  rw [addNode_relocate]
  rfl

theorem xmlPrintOverridesFuel_relocate : xmlPrintOverridesFuel (tu.relocate l) = xmlPrintOverridesFuel tu := by
  funext fndecl fuel
  induction fuel with
  | zero => rfl
  | succ fuel ih =>
      funext type
      unfold xmlPrintOverridesFuel xmlPrintOverridesR
      rw [ih, addNode_relocate]
      rfl

theorem xmlOutputArguments_relocate : xmlOutputArguments (tu.relocate l) = xmlOutputArguments tu := by
  have hargument : xmlOutputArgument (tu.relocate l) = xmlOutputArgument tu := by
    unfold xmlOutputArgument argumentAttributes
    rw [xmlPrintTypeAttribute_relocate]
    rfl
  funext pds tls c
  induction pds, tls, c using xmlOutputArguments.induct with
  | case1 => simp [xmlOutputArguments]
  | case2 tl tls c ih => simp [xmlOutputArguments, ih, hargument]
  | case3 c pd pds tl tls ih => simp [xmlOutputArguments, ih, hargument]

omit [DecidableEq Node] in
theorem realNamespace_relocate : realNamespace (tu.relocate l) = realNamespace tu := by
  have hfuel : ∀ fuel ns, realNamespaceFuel (tu.relocate l) fuel ns = realNamespaceFuel tu fuel ns := by
    intro fuel
    induction fuel with
    | zero => exact fun _ => rfl
    | succ fuel ih =>
        intro ns
        unfold realNamespaceFuel
        simp only [ih]
        rfl
  exact funext fun ns => hfuel _ ns

theorem xmlOutputNamespaceDecl_relocate : xmlOutputNamespaceDecl (tu.relocate l) = xmlOutputNamespaceDecl tu := by
  unfold xmlOutputNamespaceDecl namespaceAttributes namespaceAliasAttributes xmlPrintNamespaceMembers listMember
  rw [xmlPrintContextAttribute_relocate, addNode_relocate, realNamespace_relocate]
  rfl

theorem xmlOutputTypedef_relocate : xmlOutputTypedef (tu.relocate l) = xmlOutputTypedef tu := by
  unfold xmlOutputTypedef typedefAttributes
  rw [xmlPrintTypeAttribute_relocate, xmlPrintContextAttribute_relocate]
  rfl

theorem xmlOutputFunctionDecl_relocate : xmlOutputFunctionDecl (tu.relocate l) = xmlOutputFunctionDecl tu := by
  unfold xmlOutputFunctionDecl functionAttributes xmlPrintVirtualMethodAttributes xmlPrintOverridesMethodAttribute
    xmlPrintOverrides xmlPrintThrowAttribute xmlPrintBefriendingAttribute
  rw [xmlOutputArguments_relocate, xmlPrintOverridesFuel_relocate, xmlPrintReturnsAttribute_relocate,
    xmlPrintTypeIdref_relocate, xmlPrintContextAttribute_relocate, addNode_relocate]
  rfl

theorem xmlOutputVarDecl_relocate : xmlOutputVarDecl (tu.relocate l) = xmlOutputVarDecl tu := by
  unfold xmlOutputVarDecl varDeclAttributes
  rw [xmlPrintTypeAttribute_relocate, xmlPrintContextAttribute_relocate]
  rfl

theorem xmlOutputFieldDecl_relocate : xmlOutputFieldDecl (tu.relocate l) = xmlOutputFieldDecl tu := by
  unfold xmlOutputFieldDecl fieldDeclAttributes
  rw [xmlPrintTypeAttribute_relocate, xmlPrintContextAttribute_relocate]
  rfl

theorem xmlOutputRecordType_relocate : xmlOutputRecordType (tu.relocate l) = xmlOutputRecordType tu := by
  unfold xmlOutputRecordType recordAttributes xmlPrintBefriendingAttribute xmlPrintRecordMembers listMember
    xmlPrintBasesAttribute xmlOutputBase
  rw [xmlPrintContextAttribute_relocate, addNode_relocate]
  rfl

theorem enumeralTypeAttributes_relocate : enumeralTypeAttributes (tu.relocate l) = enumeralTypeAttributes tu := by
  unfold enumeralTypeAttributes
  rw [xmlPrintContextAttribute_relocate]
  rfl

theorem xmlOutputVariant_relocate : xmlOutputVariant (tu.relocate l) = xmlOutputVariant tu := by
  unfold xmlOutputVariant
  rw [xmlGetIdref_relocate]

omit [DecidableEq Node] in
/-- An `Unimplemented` element is the same up to its address. -/
theorem xmlOutputUnimplemented_relocate (t : Node) (dn : Option Node) (function : Option String) :
    (xmlOutputUnimplemented (tu.relocate l) t dn function).log.map Action.withoutNode =
      (xmlOutputUnimplemented tu t dn function).log.map Action.withoutNode := by
  cases dn <;> cases function <;> rfl

/-- An `Enumeration` element is the same up to the addresses of the enumerators that are no integer constants. -/
theorem xmlOutputEnumeralType_relocate (t : Node) :
    (xmlOutputEnumeralType (tu.relocate l) t).log.map Action.withoutNode =
      (xmlOutputEnumeralType tu t).log.map Action.withoutNode := by
  have hvalue : ∀ tv : Option String × Node, (xmlOutputEnumValue (tu.relocate l) tv.1 tv.2).log.map Action.withoutNode =
      (xmlOutputEnumValue tu tv.1 tv.2).log.map Action.withoutNode := by
    intro tv
    have hother := @xmlOutputUnimplemented_relocate _ tu l tv.2 none (some "xml_output_enumeral_type")
    unfold xmlOutputEnumValue
    have hcode : (tu.relocate l).treeCode tv.2 = tu.treeCode tv.2 := rfl
    rw [hcode]
    split
    · rfl
    · rw [Trace.log_bind, Trace.log_bind, List.map_append, List.map_append, hother]
  have hvalues : ((tu.tree t).typeValues.flatMap fun tv =>
        (xmlOutputEnumValue (tu.relocate l) tv.1 tv.2).log).map Action.withoutNode =
      ((tu.tree t).typeValues.flatMap fun tv => (xmlOutputEnumValue tu tv.1 tv.2).log).map Action.withoutNode := by
    rw [List.map_flatMap, List.map_flatMap]
    exact List.flatMap_congr fun tv _ => hvalue tv
  have htree : (tu.relocate l).tree t = tu.tree t := rfl
  unfold xmlOutputEnumeralType
  simp only [Trace.log_bind, Trace.log_each, List.map_append, enumeralTypeAttributes_relocate, htree, hvalues]

/-- The main variant of a type. -/
theorem xmlOutputMainVariant_relocate (n : Node) (c : Bool) :
    (xmlOutputMainVariant (tu.relocate l) n c).log.map Action.withoutNode =
      (xmlOutputMainVariant tu n c).log.map Action.withoutNode := by
  have hcode : (tu.relocate l).treeCode n = tu.treeCode n := rfl
  unfold xmlOutputMainVariant
  rw [hcode]
  split
  case h_10 => exact xmlOutputEnumeralType_relocate n
  case h_1 | h_2 | h_3 => rw [xmlOutputRecordType_relocate]
  case h_4 =>
    unfold xmlOutputArrayType arrayTypeAttributes
    rw [xmlPrintTypeAttribute_relocate]
    rfl
  -- pointers and references
  case h_5 | h_6 =>
    have hindirect : ∀ tag, xmlOutputIndirectType (tu.relocate l) tag n = xmlOutputIndirectType tu tag n := by
      intro tag
      unfold xmlOutputIndirectType indirectTypeAttributes
      rw [xmlPrintTypeAttribute_relocate]
      rfl
    exact congrArg (fun p : Print Node Unit => p.log.map Action.withoutNode) (hindirect _)
  case h_7 =>
    unfold xmlOutputFunctionType functionTypeAttributes
    rw [xmlPrintReturnsAttribute_relocate, xmlOutputArguments_relocate]
    rfl
  case h_8 =>
    unfold xmlOutputMethodType methodTypeAttributes xmlPrintBaseTypeAttribute
    rw [xmlPrintReturnsAttribute_relocate, addNode_relocate, xmlOutputArguments_relocate]
    rfl
  case h_9 =>
    unfold xmlOutputOffsetType offsetTypeAttributes xmlPrintBaseTypeAttribute
    rw [xmlPrintTypeAttribute_relocate, addNode_relocate]
    rfl
  all_goals rfl

/-- **Printing a node has the same effects**, up to the addresses in `Unimplemented` elements. -/
theorem xmlDumpTreeNode_relocate (n : Node) (c : Bool) :
    (xmlDumpTreeNode (tu.relocate l) n c).log.map Action.withoutNode =
      (xmlDumpTreeNode tu n c).log.map Action.withoutNode := by
  have hcode : (tu.relocate l).treeCode n = tu.treeCode n := rfl
  unfold xmlDumpTreeNode
  rw [hcode]
  split
  case h_1 => rw [xmlOutputNamespaceDecl_relocate]
  case h_2 => rw [xmlOutputTypedef_relocate]
  case h_3 => rw [xmlOutputFunctionDecl_relocate]
  case h_4 => rw [xmlOutputVarDecl_relocate]
  case h_5 => rw [xmlOutputFieldDecl_relocate]
  case h_22 => exact xmlOutputUnimplemented_relocate n (some n) none
  all_goals
    unfold xmlOutputCvQualifiedType
    have hvariant : (tu.relocate l).typeMainVariant n = tu.typeMainVariant n := rfl
    rw [hvariant]
    split
    · exact xmlOutputMainVariant_relocate n c
    · rw [xmlOutputVariant_relocate]

/-! ## Runs

Two states that agree without addresses stay so, whatever both runs do to them. -/

section
variable {s s' : DumpInfo Node}

omit [DecidableEq Node] in
/-- What does not read the text is the same in states that agree without addresses. -/
theorem field_eq (h : s'.withoutNode = s.withoutNode) {α : Type} (f : DumpInfo Node → α)
    (hf : ∀ s : DumpInfo Node, f s.withoutNode = f s) : f s' = f s := by
  rw [← hf s', h, hf]

theorem withoutNode_addNodeReal (s : DumpInfo Node) (n : Node) (c : Bool) :
    (s.addNodeReal n c).withoutNode = s.withoutNode.addNodeReal n c := by
  by_cases hi : s.index n = 0
  · rw [addNodeReal_new s n c hi, addNodeReal_new s.withoutNode n c hi]
    rfl
  · rw [addNodeReal_known s n c hi, addNodeReal_known s.withoutNode n c hi]
    rfl

omit [DecidableEq Node] in
theorem withoutNode_queueFile (s : DumpInfo Node) (name : String) :
    (s.queueFile name).withoutNode = s.withoutNode.queueFile name := by
  unfold DumpInfo.queueFile
  dsimp only [DumpInfo.withoutNode]
  split <;> rfl

omit [DecidableEq Node] in
theorem withoutNode_write (s : DumpInfo Node) (frag : SymFrag Node) :
    (s.write frag).withoutNode = s.withoutNode.write frag.withoutNode := by
  have hindices : s.withoutNode.indexOf = s.indexOf ∧ s.withoutNode.fileIndexOf = s.fileIndexOf := ⟨rfl, rfl⟩
  unfold DumpInfo.write
  simp only [DumpInfo.withoutNode, List.map_append, List.map_cons, List.map_nil, withoutNode_fill]
  rfl

theorem withoutNode_exec (s : DumpInfo Node) (a : Action Node) :
    (s.exec tu a).withoutNode = s.withoutNode.exec tu a.withoutNode := by
  cases a with
  | emit frag => exact withoutNode_write s frag
  | addNode n c =>
      show (s.register _).withoutNode = s.withoutNode.register _
      induction (xmlAddNode tu n c).log generalizing s with
      | nil => rfl
      | cons r log ih =>
          have hfirst := withoutNode_addNodeReal s r.1 r.2
          show ((s.addNodeReal r.1 r.2).register log).withoutNode = (s.withoutNode.addNodeReal r.1 r.2).register log
          rw [ih, hfirst]
  | queueFile name => exact withoutNode_queueFile s name

theorem withoutNode_execAll (s : DumpInfo Node) (log : List (Action Node)) :
    (s.execAll tu log).withoutNode = s.withoutNode.execAll tu (log.map Action.withoutNode) := by
  induction log generalizing s with
  | nil => rfl
  | cons a log ih => rw [execAll_cons, List.map_cons, execAll_cons, ih, withoutNode_exec]

theorem execAll_relocate (s : DumpInfo Node) (log : List (Action Node)) :
    s.execAll (tu.relocate l) log = s.execAll tu log := by
  have hexec : exec (tu.relocate l) = exec tu := by
    funext s a
    unfold exec
    rw [xmlAddNode_relocate]
  unfold execAll
  rw [hexec]

/-- **One round of `xml_dump`** keeps states that agree without addresses so. -/
theorem withoutNode_xmlDumpNode (h : s'.withoutNode = s.withoutNode) (n : Node) :
    (xmlDumpNode (tu.relocate l) s' n).withoutNode = (xmlDumpNode tu s n).withoutNode := by
  have hcomplete : s'.complete n = s.complete n := field_eq h (fun s => s.complete n) fun _ => rfl
  have hpop : ({ s' with dumped := s'.dumped ++ [(n, s'.complete n)] } : DumpInfo Node).withoutNode =
      ({ s with dumped := s.dumped ++ [(n, s.complete n)] } : DumpInfo Node).withoutNode := by
    show { s'.withoutNode with dumped := s'.withoutNode.dumped ++ [(n, s'.complete n)] } =
      { s.withoutNode with dumped := s.withoutNode.dumped ++ [(n, s.complete n)] }
    rw [h, hcomplete]
  unfold xmlDumpNode
  dsimp only
  rw [execAll_relocate, withoutNode_execAll, withoutNode_execAll, hpop, hcomplete, xmlDumpTreeNode_relocate]

/-- **The whole loop** keeps states that agree without addresses so. -/
theorem withoutNode_xmlDump (h : s'.withoutNode = s.withoutNode) (fuel : Nat) :
    (xmlDump (tu.relocate l) fuel s').map DumpInfo.withoutNode = (xmlDump tu fuel s).map DumpInfo.withoutNode := by
  induction fuel generalizing s s' with
  | zero =>
      have hqueue : s'.queue = s.queue := field_eq h DumpInfo.queue fun _ => rfl
      unfold xmlDump
      rw [hqueue]
      split
      · exact congrArg some h
      · rfl
  | succ fuel ih =>
      have hqueue : s'.queue = s.queue := field_eq h DumpInfo.queue fun _ => rfl
      cases hq : s.queue with
      | nil =>
          rw [xmlDump_of_queue_nil hq, xmlDump_of_queue_nil (hqueue.trans hq)]
          exact congrArg some h
      | cons n rest =>
          have hpop : ({ s' with queue := rest } : DumpInfo Node).withoutNode =
              ({ s with queue := rest } : DumpInfo Node).withoutNode := by
            show { s'.withoutNode with queue := rest } = { s.withoutNode with queue := rest }
            rw [h]
          rw [xmlDump_of_queue_cons hq, xmlDump_of_queue_cons (hqueue.trans hq)]
          exact ih (withoutNode_xmlDumpNode hpop n)

/-- **The first phase does not depend on addresses.** -/
theorem completePhase_relocate (starts : List Node) (fuel : Nat) :
    (completePhase (tu.relocate l) starts fuel).map DumpInfo.withoutNode =
      (completePhase tu starts fuel).map DumpInfo.withoutNode := by
  have hstart : startDump (tu.relocate l) starts = startDump tu starts := by
    have hlog : startLog (tu.relocate l) starts = startLog tu starts := rfl
    unfold startDump
    rw [execAll_relocate, hlog]
  unfold completePhase
  rw [hstart]
  exact withoutNode_xmlDump rfl fuel

end

/-! ## The order of the nodes that stayed incomplete -/

/-- `n` has a dump node in the state `s`, and this is incomplete. -/
def DumpInfo.Incomplete (s : DumpInfo Node) (n : Node) : Prop := (s.dumpNodes n).any (!·.complete) = true

variable (tu l) in
/-- **The addresses order the nodes that are incomplete in the state `s` in the same way.** -/
def SameOrder (s : DumpInfo Node) : Prop :=
  ∀ a b, s.Incomplete a → s.Incomplete b → (tu.address a < tu.address b ↔ l.address a < l.address b)

omit [DecidableEq Node] in
/-- The nodes of the unit in another order. -/
theorem nodes_perm_relocate : (tu.relocate l).nodes.Perm tu.nodes := by
  rw [List.perm_ext_iff_of_nodup (tu.relocate l).nodes_nodup tu.nodes_nodup]
  exact fun n => ⟨fun _ => tu.mem_nodes n, fun _ => (tu.relocate l).mem_nodes n⟩

omit [DecidableEq Node] in
/-- Nodes that both layouts order in the same way are visited in the same order. -/
theorem SameOrder.filter_nodes {s : DumpInfo Node} (h : SameOrder tu l s) :
    (l.nodes.filter fun n => (s.dumpNodes n).any (!·.complete)) =
      tu.nodes.filter fun n => (s.dumpNodes n).any (!·.complete) := by
  have hperm := (@nodes_perm_relocate _ tu l).filter fun n => (s.dumpNodes n).any (!·.complete)
  have hold : (tu.nodes.filter fun n => (s.dumpNodes n).any (!·.complete)).Pairwise
      fun a b => l.address a < l.address b := by
    refine (tu.nodes_sorted.filter _).imp_of_mem fun {a b} ha hb hab => ?_
    exact (h a b (List.mem_filter.mp ha).2 (List.mem_filter.mp hb).2).mp hab
  exact hperm.eq_of_pairwise (fun a b _ _ hab hba => absurd hab (Nat.lt_asymm hba)) (l.nodes_sorted.filter _) hold

omit [DecidableEq Node] in
/-- The second phase starts in states that agree without addresses. -/
theorem startIncomplete_relocate {s s' : DumpInfo Node} (h : s'.withoutNode = s.withoutNode)
    (horder : SameOrder tu l s) :
    (startIncomplete (tu.relocate l) s').withoutNode = (startIncomplete tu s).withoutNode := by
  have hnodes : s'.dumpNodes = s.dumpNodes := field_eq h DumpInfo.dumpNodes fun _ => rfl
  have hqueue : s'.queue = s.queue := field_eq h DumpInfo.queue fun _ => rfl
  have hseeds : (queueIncompleteDumpNodes (tu.relocate l) s').queue = (queueIncompleteDumpNodes tu s).queue := by
    show s'.queue ++ l.nodes.filter _ = s.queue ++ tu.nodes.filter _
    rw [hnodes, hqueue, horder.filter_nodes]
  show { s'.withoutNode with queue := (queueIncompleteDumpNodes (tu.relocate l) s').queue, requireComplete := false } =
    { s.withoutNode with queue := (queueIncompleteDumpNodes tu s).queue, requireComplete := false }
  rw [h, hseeds]

omit [DecidableEq Node] in
theorem finishDump_relocate {s s' : DumpInfo Node} (h : s'.withoutNode = s.withoutNode) :
    (finishDump s').withoutNode = (finishDump s).withoutNode := by
  have hfiles : ∀ s : DumpInfo Node, (xmlDumpFiles s).withoutNode = xmlDumpFiles s.withoutNode := by
    intro s
    unfold xmlDumpFiles DumpInfo.withoutNode
    simp only [List.map_append, List.map_flatMap]
    rfl
  unfold finishDump
  rw [withoutNode_write, withoutNode_write, hfiles, hfiles, h]

/-- The states after both phases agree without addresses, if those after the first phase are ordered in the same way. -/
theorem PhasesEnd.relocate {starts : List Node} {s₁ s₁' s₂ s₂' : DumpInfo Node} (h : PhasesEnd tu starts s₁ s₂)
    (h' : PhasesEnd (tu.relocate l) starts s₁' s₂') :
    s₁'.withoutNode = s₁.withoutNode ∧ (SameOrder tu l s₁ → s₂'.withoutNode = s₂.withoutNode) := by
  have hlength : (tu.relocate l).nodes.length = tu.nodes.length := nodes_perm_relocate.length_eq
  have hfirst : s₁'.withoutNode = s₁.withoutNode := by
    have hphase := @completePhase_relocate _ _ tu l starts (2 * tu.nodes.length)
    have hrun' : completePhase (tu.relocate l) starts (2 * tu.nodes.length) = some s₁' := hlength ▸ h'.first
    have hrun : completePhase tu starts (2 * tu.nodes.length) = some s₁ := h.first
    rw [hrun', hrun] at hphase
    exact Option.some.inj hphase
  refine ⟨hfirst, fun horder => ?_⟩
  have hrun := @withoutNode_xmlDump _ _ tu l _ _ (startIncomplete_relocate hfirst horder) (2 * tu.nodes.length)
  have hsecond' : xmlDump (tu.relocate l) (2 * tu.nodes.length) (startIncomplete (tu.relocate l) s₁') = some s₂' :=
    hlength ▸ h'.second
  rw [hsecond', h.second] at hrun
  exact Option.some.inj hrun

end

end GccXml
