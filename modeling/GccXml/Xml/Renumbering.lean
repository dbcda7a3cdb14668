import GccXml.Xml.Addresses
import GccXml.Xml.References
import GccXml.Xml.WellFormed

namespace GccXml

/-! # `Xml.Renumbering` — one unit, two documents

What two runs over one unit at different addresses have in common whatever the order in which they visit the nodes that
stayed incomplete: they print the same nodes, and their documents differ in the order of the elements and in the
numbers of the nodes and files.

That the same nodes are printed has nothing to do with the order: what is complete is the first phase, in which no
address is looked at, and what is printed is what is reached from there. The elements of a node are the same up to its
indices, which are what the state gives for the nodes it refers to. So if both states gave one index to each node, a
function that takes the first index of a node to the second one would take the one document to the other.

Such a function exists, and is injective, since indices are. For the files it is the same with their numbers, after it
is shown that the same files are queued. The hypothesis that there are no late requests is needed for one thing only: a
node that is printed twice might be printed with different completeness in the two runs. -/

open DumpInfo

section
variable {Node : Type} [DecidableEq Node] {tu : TranslationUnit Node} {l : Layout Node} {starts : List Node}

/-! ## The same nodes -/

theorem registered_relocate : registered (tu.relocate l) = registered tu := by
  unfold registered
  rw [xmlAddNode_relocate]

theorem mem_issues_relocate {n m : Node} {c d : Bool} :
    (m, d) ∈ issues (tu.relocate l) n c ↔ (m, d) ∈ issues tu n c := by
  have hmem : ∀ log : List (Action Node), .addNode m d ∈ log.map Action.withoutNode ↔ .addNode m d ∈ log := by
    intro log
    rw [List.mem_map]
    constructor
    · rintro ⟨a, ha, he⟩
      cases a <;> simp only [Action.withoutNode, reduceCtorEq] at he
      rwa [← he]
    · exact fun ha => ⟨_, ha, rfl⟩
  rw [mem_issues, mem_issues, ← hmem, xmlDumpTreeNode_relocate, hmem]

theorem reached_relocate {n : Node} {c : Bool} : Reached (tu.relocate l) starts n c ↔ Reached tu starts n c := by
  constructor
  · intro h
    induction h with
    | start hm hr =>
        rw [registered_relocate] at hr
        exact .start hm hr
    | issued _ hm hr ih =>
        rw [registered_relocate] at hr
        exact .issued ih (mem_issues_relocate.mp hm) hr
  · intro h
    induction h with
    | start hm hr =>
        rw [← @registered_relocate _ _ tu l] at hr
        exact .start hm hr
    | issued _ hm hr ih =>
        rw [← @registered_relocate _ _ tu l] at hr
        exact .issued ih (mem_issues_relocate.mpr hm) hr

theorem noLateRequest_relocate (h : NoLateRequest tu starts) : NoLateRequest (tu.relocate l) starts := by
  have hregistered : ∀ m r, r ∈ registered (tu.relocate l) m true ↔ r ∈ registered tu m true := by
    intro m r
    rw [registered_relocate]
  have hset : ∀ n, CompleteSet (tu.relocate l) starts n ↔ CompleteSet tu starts n := fun n =>
    CompleteSet.congr (fun _ => Iff.rfl) hregistered (fun _ _ => mem_issues_relocate) n
  intro n hn hnot hlate
  obtain ⟨m, hm, r, hr⟩ := exists_late hlate
  have hnone := registered_of_not_late (h n (reached_relocate.mp hn) fun hc => hnot ((hset n).mpr hc))
    (mem_issues_relocate.mp hm)
  rw [registered_relocate, hnone] at hr
  exact absurd hr List.not_mem_nil

/-! ## The elements of a node -/

/-- An element without the value of the attribute `node`. -/
def Element.withoutNode {ι φ : Type} (e : Element Node ι φ) : Element Node ι φ :=
  ⟨e.tag, e.attrs.map fun a => (a.1, if a.1 = "node" then [] else a.2)⟩

omit [DecidableEq Node] in
theorem elements_withoutNode {ι φ : Type} (frags : List (Frag Node ι φ)) :
    elements (frags.map Frag.withoutNode) = (elements frags).map Element.withoutNode := by
  have hattr : ∀ name (value : List (Piece Node ι φ)),
      (Frag.attr name value).withoutNode = .attr name (if name = "node" then [] else value) := by
    intro name value
    by_cases hname : name = "node"
    · subst hname
      rfl
    · rw [Frag.withoutNode_attr_of_ne value hname, if_neg hname]
  -- the attributes of a start tag are those fragments that follow it, up to the next other one
  have hleading : ∀ frags : List (Frag Node ι φ), leadingAttrs (frags.map Frag.withoutNode) =
      (leadingAttrs frags).map fun a => (a.1, if a.1 = "node" then [] else a.2) := by
    intro frags
    induction frags with
    | nil => rfl
    | cons frag frags ih =>
        cases frag with
        | attr name value =>
            rw [List.map_cons, hattr]
            exact congrArg _ ih
        | _ => rfl
  induction frags with
  | nil => rfl
  | cons frag frags ih =>
      cases frag with
      | startTag indent tag =>
          show (⟨tag, _⟩ : Element Node ι φ) :: elements _ = ⟨tag, _⟩ :: (elements frags).map Element.withoutNode
          rw [ih, hleading]
      | attr name value =>
          rw [List.map_cons, hattr]
          exact ih
      | _ => exact ih

theorem nodeElements_relocate (d : Node × Bool) :
    (nodeElements (tu.relocate l) d).map Element.withoutNode = (nodeElements tu d).map Element.withoutNode := by
  have hnode : ∀ tu : TranslationUnit Node, (nodeElements tu d).map Element.withoutNode =
      elements ((fragsOf (xmlDumpTreeNode tu d.1 d.2)).map Frag.withoutNode) := by
    intro tu
    have hentries := elements_entries (nodeEntry tu d.1 d.2).toList []
    rw [elements_withoutNode, fragsOf_xmlDumpTreeNode]
    rw [List.append_nil] at hentries
    show _ = (elements ((nodeEntry tu d.1 d.2).toList.flatMap Entry.frags)).map Element.withoutNode
    rw [hentries]
    simp [nodeElements, elements]
  have hfrags : ∀ log : List (Action Node),
      (log.filterMap Action.frag?).map Frag.withoutNode = (log.map Action.withoutNode).filterMap Action.frag? := by
    intro log
    rw [List.map_filterMap, List.filterMap_map]
    refine List.filterMap_congr fun a _ => ?_
    cases a <;> rfl
  rw [hnode, hnode]
  unfold fragsOf
  rw [hfrags, hfrags, xmlDumpTreeNode_relocate]

/-! ## New numbers -/

variable (tu) in
/-- The index in the state `s'` of the node with the index `i` in the state `s`. -/
def newIndex (s s' : DumpInfo Node) (i : Nat) : Nat := (tu.nodes.find? fun n => s.index n = i).elim 0 s'.index

/-- The number in the state `s'` of the file with the number `i` in the state `s`. -/
def newFile (s s' : DumpInfo Node) (i : Nat) : Nat :=
  ((s.fileQueue.find? fun f => f.2 = i).bind fun f => s'.fileNodes f.1).getD 0

/-- **The document of `s'` is that of `s` with new numbers**: the indices of the nodes are replaced by `ids` and the
    numbers of the files by `files`, both injective, and the elements come in some order. -/
structure Renumbers (ids files : Nat → Nat) (s s' : DumpInfo Node) : Prop where
  index : ∀ n, ids (s.index n) = s'.index n
  index_inj : ∀ n m, ids (s.index n) = ids (s.index m) → s.index n = s.index m
  file : ∀ f i, s.fileNodes f = some i → s'.fileNodes f = some (files i)
  file_inj : ∀ f g i j, s.fileNodes f = some i → s.fileNodes g = some j → files i = files j → i = j
  elements : ((GccXml.elements s'.file).map Element.withoutNode).Perm
    ((GccXml.elements s.file).map fun e => (e.fill ids files).withoutNode)

omit [DecidableEq Node] in
theorem withoutNode_fillElement (s : DumpInfo Node) (e : SymElement Node) :
    (s.fillElement e).withoutNode = s.fillElement e.withoutNode := by
  have hattr : ∀ a : String × List (SymPiece Node), (if a.1 = "node" then [] else
      a.2.map (Piece.fill s.indexOf s.fileIndexOf)) =
        (if a.1 = "node" then [] else a.2).map (Piece.fill s.indexOf s.fileIndexOf) := by
    intro a
    split <;> rfl
  simp [Element.withoutNode, fillElement, Element.fill, Function.comp_def, hattr]

section
variable {s₁ s₁' s₂ s₂' : DumpInfo Node}

/-- The same nodes have an index, and they are complete in both runs or in none. -/
theorem PhasesEnd.same_nodes (h : PhasesEnd tu starts s₁ s₂) (h' : PhasesEnd (tu.relocate l) starts s₁' s₂') (n : Node) :
    (s₂'.index n ≠ 0 ↔ s₂.index n ≠ 0) ∧ s₂'.complete n = s₂.complete n := by
  refine ⟨?_, ?_⟩
  · rw [h'.index_iff, h.index_iff]
    exact exists_congr fun c => reached_relocate
  · rw [Bool.eq_iff_iff, h'.complete_iff, h.complete_iff]
    exact reached_relocate

theorem newIndex_index (h : PhasesEnd tu starts s₁ s₂) (h' : PhasesEnd (tu.relocate l) starts s₁' s₂') (n : Node) :
    newIndex tu s₂ s₂' (s₂.index n) = s₂'.index n := by
  have hsome : ((tu.nodes.find? fun m => s₂.index m = s₂.index n)).isSome := by
    rw [List.find?_isSome]
    exact ⟨n, tu.mem_nodes n, decide_eq_true rfl⟩
  obtain ⟨m, hm⟩ := Option.isSome_iff_exists.mp hsome
  have heq : s₂.index m = s₂.index n := by simpa using List.find?_some hm
  unfold newIndex
  rw [hm]
  show s₂'.index m = s₂'.index n
  by_cases hn : s₂.index n = 0
  · -- neither has an index, in either run
    have hnone : ∀ k, s₂.index k = 0 → s₂'.index k = 0 := fun k hk => by
      by_contra hne
      exact ((h.same_nodes h' k).1.mp hne) hk
    rw [hnone m (heq.trans hn), hnone n hn]
  · rw [h.running.1.coherent.index_inj n m hn heq.symm]

/-- Without late requests the same nodes are printed with the same flags, each once. -/
theorem PhasesEnd.dumped_perm (h : PhasesEnd tu starts s₁ s₂) (h' : PhasesEnd (tu.relocate l) starts s₁' s₂')
    (hlate : NoLateRequest tu starts) : s₂'.dumped.Perm s₂.dumped := by
  have hfirst : ∀ n, s₁'.complete n = s₁.complete n := fun n =>
    field_eq (h.relocate h').1 (fun s => s.complete n) fun _ => rfl
  have hnodup : ∀ {tu : TranslationUnit Node} {s₁ s₂ : DumpInfo Node}, PhasesEnd tu starts s₁ s₂ → ExactlyOnce s₁ s₂ →
      s₂.dumped.Nodup ∧ ∀ d, d ∈ s₂.dumped ↔ s₂.index d.1 ≠ 0 ∧ d.2 = s₁.complete d.1 := by
    intro tu s₁ s₂ h honce
    refine ⟨.of_map Prod.fst (List.nodup_iff_count_le_one.mpr fun n => ?_), fun d => ⟨fun hd => ?_, fun ⟨hi, hc⟩ => ?_⟩⟩
    · by_cases hn : s₂.index n = 0
      · have hnot : n ∉ s₂.dumped.map Prod.fst := by
          intro hmem
          obtain ⟨d, hd, rfl⟩ := List.mem_map.mp hmem
          exact h.running.1.coherent.dumped d hd hn
        rw [List.count_eq_zero_of_not_mem hnot]
        exact Nat.zero_le 1
      · exact Nat.le_of_eq (honce.printed n hn)
    · exact ⟨h.running.1.coherent.dumped d hd, honce.completeness d hd⟩
    · have hmem := h.printed hi
      have hflag : s₂.complete d.1 = s₁.complete d.1 := honce.completeness _ hmem
      rw [hflag, ← hc] at hmem
      exact hmem
  obtain ⟨hnd, hmem⟩ := hnodup h (exactlyOnce_of_noLateRequest h hlate)
  obtain ⟨hnd', hmem'⟩ := hnodup h' (exactlyOnce_of_noLateRequest h' (noLateRequest_relocate hlate))
  rw [List.perm_ext_iff_of_nodup hnd' hnd]
  intro d
  rw [hmem', hmem, hfirst, (h.same_nodes h' d.1).1]

/-- The file tables hold the same files. -/
theorem PhasesEnd.files_perm (h : PhasesEnd tu starts s₁ s₂) (h' : PhasesEnd (tu.relocate l) starts s₁' s₂')
    (hlate : NoLateRequest tu starts) :
    ∃ keys keys' : List String, keys.Nodup ∧ keys'.Perm keys ∧ HoldsFiles keys s₂ ∧ HoldsFiles keys' s₂' := by
  refine ⟨_, _, Interning.nodup_eraseDups _, ?_, h.filesHeld, h'.filesHeld⟩
  rw [List.perm_ext_iff_of_nodup (Interning.nodup_eraseDups _) (Interning.nodup_eraseDups _)]
  intro f
  have hfiles : printedFiles (tu.relocate l) s₂'.dumped = printedFiles tu s₂'.dumped := rfl
  rw [List.mem_eraseDups, List.mem_eraseDups, hfiles]
  have hperm : (printedFiles tu s₂'.dumped).Perm (printedFiles tu s₂.dumped) := (h.dumped_perm h' hlate).flatMap_right _
  exact (hperm.map xmlEscapeString).mem_iff

omit [DecidableEq Node] in
/-- The new number of a file is the one it has in the other table. -/
theorem newFile_number {keys : List String} (hnd : keys.Nodup) (h : HoldsFiles keys s₂) {f : String}
    (hf : f ∈ keys) : newFile s₂ s₂' (keys.idxOf f) = (s₂'.fileNodes f).getD 0 := by
  have hfind : s₂.fileQueue.find? (fun g => g.2 = keys.idxOf f) = some (f, keys.idxOf f) := by
    rw [h.queue, Interning.zipIdx_eq_map hnd, List.find?_map]
    have hsome : (keys.find? fun g => keys.idxOf g = keys.idxOf f).isSome := by
      rw [List.find?_isSome]
      exact ⟨f, hf, decide_eq_true rfl⟩
    obtain ⟨g, hg⟩ := Option.isSome_iff_exists.mp hsome
    have heq : keys.idxOf g = keys.idxOf f := by simpa using List.find?_some hg
    have hgf : g = f := Interning.idxOf_inj (List.mem_of_find?_eq_some hg) heq
    show Option.map _ (keys.find? fun g => keys.idxOf g = keys.idxOf f) = _
    rw [hg, hgf]
    rfl
  unfold newFile
  rw [hfind]
  rfl

/-- The element of a printed node with the indices of the other run. -/
theorem PhasesEnd.fillElement_renumbered (h : PhasesEnd tu starts s₁ s₂)
    (h' : PhasesEnd (tu.relocate l) starts s₁' s₂')
    (hfile : ∀ f i, s₂.fileNodes f = some i → newFile s₂ s₂' i = s₂'.fileIndexOf f) {d : Node × Bool}
    (hd : d ∈ s₂.dumped) {e : SymElement Node} (he : e ∈ nodeElements tu d) :
    (s₂.fillElement e).fill (newIndex tu s₂ s₂') (newFile s₂ s₂') = s₂'.fillElement e := by
  -- the index zero stands for no node at all, in both runs
  have hzero : newIndex tu s₂ s₂' 0 = 0 := by
    unfold newIndex
    cases hfind : tu.nodes.find? fun n => s₂.index n = 0 with
    | none => rfl
    | some n =>
        have hn : s₂.index n = 0 := by simpa using List.find?_some hfind
        show s₂'.index n = 0
        by_contra hne
        exact (h.same_nodes h' n).1.mp hne hn
  have hid : ∀ r, newIndex tu s₂ s₂' (s₂.indexOf r) = s₂'.indexOf r := by
    intro r
    cases r with
    | none => exact hzero
    | some n => exact newIndex_index h h' n
  have hpiece : ∀ a ∈ e.attrs, ∀ x ∈ a.2, (x.fill s₂.indexOf s₂.fileIndexOf).fill (newIndex tu s₂ s₂')
      (newFile s₂ s₂') = x.fill s₂'.indexOf s₂'.fileIndexOf := by
    intro a ha x hx
    have hknown := h.known hd he ha hx
    cases x with
    | file f =>
        obtain ⟨i, hi⟩ := hknown.2 f rfl
        have hnum : s₂.fileIndexOf f = i := by simp [fileIndexOf, hi]
        exact congrArg Piece.file (by rw [hnum, hfile f i hi])
    | id r => exact congrArg Piece.id (hid r)
    | typeId t r q => exact congrArg (Piece.typeId t · q) (hid r)
    | _ => rfl
  unfold fillElement Element.fill
  rw [List.map_map]
  refine congrArg _ (List.map_congr_left fun a ha => ?_)
  show (a.1, (a.2.map _).map _) = (a.1, a.2.map _)
  rw [List.map_map]
  exact congrArg _ (List.map_congr_left fun x hx => hpiece a ha x hx)

/-- Nodes with one new index have one old index. -/
theorem newIndex_inj (h : PhasesEnd tu starts s₁ s₂) (h' : PhasesEnd (tu.relocate l) starts s₁' s₂') {n m : Node}
    (hnm : s₂'.index n = s₂'.index m) : s₂.index n = s₂.index m := by
  by_cases hn : s₂'.index n = 0
  · have hzero : ∀ k, s₂'.index k = 0 → s₂.index k = 0 := by
      intro k hk
      by_contra hne
      exact ((h.same_nodes h' k).1.mpr hne) hk
    rw [hzero n hn, hzero m (hnm ▸ hn)]
  · rw [h'.running.1.coherent.index_inj n m hn hnm]

/-! ### The file table -/

section
variable {keys keys' : List String} {f g : String} {i j : Nat}

omit [DecidableEq Node] in
theorem HoldsFiles.number (h : HoldsFiles keys s₂) (hi : s₂.fileNodes f = some i) : f ∈ keys ∧ i = keys.idxOf f := by
  rw [h.map] at hi
  split at hi
  · rename_i hf
    exact ⟨hf, (Option.some.inj hi).symm⟩
  · cases hi

omit [DecidableEq Node] in
theorem newFile_idxOf (hnd : keys.Nodup) (hperm : keys'.Perm keys) (h : HoldsFiles keys s₂)
    (h' : HoldsFiles keys' s₂') (hf : f ∈ keys) : newFile s₂ s₂' (keys.idxOf f) = keys'.idxOf f := by
  rw [newFile_number hnd h hf, h'.map, if_pos (hperm.mem_iff.mpr hf)]
  rfl

omit [DecidableEq Node] in
/-- A file has its new number in the second table. -/
theorem newFile_eq (hnd : keys.Nodup) (hperm : keys'.Perm keys) (h : HoldsFiles keys s₂) (h' : HoldsFiles keys' s₂')
    (hi : s₂.fileNodes f = some i) : s₂'.fileNodes f = some (newFile s₂ s₂' i) := by
  obtain ⟨hf, rfl⟩ := h.number hi
  rw [newFile_idxOf hnd hperm h h' hf, h'.map, if_pos (hperm.mem_iff.mpr hf)]

omit [DecidableEq Node] in
theorem newFile_inj (hnd : keys.Nodup) (hperm : keys'.Perm keys) (h : HoldsFiles keys s₂) (h' : HoldsFiles keys' s₂')
    (hi : s₂.fileNodes f = some i) (hj : s₂.fileNodes g = some j) (hij : newFile s₂ s₂' i = newFile s₂ s₂' j) :
    i = j := by
  obtain ⟨hf, rfl⟩ := h.number hi
  obtain ⟨hg, rfl⟩ := h.number hj
  rw [newFile_idxOf hnd hperm h h' hf, newFile_idxOf hnd hperm h h' hg] at hij
  rw [Interning.idxOf_inj (hperm.mem_iff.mpr hf) hij]

omit [DecidableEq Node] in
/-- The elements of the files with their new numbers. -/
theorem files_renumbered (hnd : keys.Nodup) (hperm : keys'.Perm keys) (h : HoldsFiles keys s₂)
    (h' : HoldsFiles keys' s₂') (ids : Nat → Nat) :
    ((s₂'.fileQueue.map (@fileElement Node)).map Element.withoutNode).Perm
      ((s₂.fileQueue.map fileElement).map fun e => (e.fill ids (newFile s₂ s₂')).withoutNode) := by
  rw [h'.queue, h.queue, Interning.zipIdx_eq_map hnd, Interning.zipIdx_eq_map (hperm.nodup_iff.mpr hnd)]
  simp only [List.map_map]
  have hnew : keys.map ((fun e => (e.fill ids (newFile s₂ s₂')).withoutNode) ∘ fileElement ∘
      fun f => (f, keys.idxOf f)) =
        keys.map (Element.withoutNode ∘ @fileElement Node ∘ fun f => (f, keys'.idxOf f)) := by
    refine List.map_congr_left fun f hf => ?_
    show (fileElement (f, newFile s₂ s₂' (keys.idxOf f))).withoutNode = _
    rw [newFile_idxOf hnd hperm h h' hf]
    rfl
  rw [hnew]
  exact hperm.map _

end

/-! ### The elements -/

/-- The elements of a node with the indices of the other run. -/
theorem PhasesEnd.node_renumbered (h : PhasesEnd tu starts s₁ s₂) (h' : PhasesEnd (tu.relocate l) starts s₁' s₂')
    (hfile : ∀ f i, s₂.fileNodes f = some i → newFile s₂ s₂' i = s₂'.fileIndexOf f) {d : Node × Bool}
    (hd : d ∈ s₂.dumped) :
    ((nodeElements (tu.relocate l) d).map s₂'.fillElement).map Element.withoutNode =
      ((nodeElements tu d).map s₂.fillElement).map fun e =>
        (e.fill (newIndex tu s₂ s₂') (newFile s₂ s₂')).withoutNode := by
  have hfill : ∀ es : List (SymElement Node), (es.map s₂'.fillElement).map Element.withoutNode =
      (es.map Element.withoutNode).map s₂'.fillElement := by
    intro es
    simp only [List.map_map, Function.comp_def, withoutNode_fillElement]
  rw [hfill, nodeElements_relocate, ← hfill, List.map_map, List.map_map]
  refine List.map_congr_left fun e he => ?_
  show (s₂'.fillElement e).withoutNode = ((s₂.fillElement e).fill _ _).withoutNode
  rw [h.fillElement_renumbered h' hfile hd he]

/-- **Without late requests the second document is the first with new numbers.** -/
theorem PhasesEnd.renumbers (h : PhasesEnd tu starts s₁ s₂) (h' : PhasesEnd (tu.relocate l) starts s₁' s₂')
    (hlate : NoLateRequest tu starts) :
    Renumbers (newIndex tu s₂ s₂') (newFile s₂ s₂') (finishDump s₂) (finishDump s₂') := by
  obtain ⟨keys, keys', hnd, hperm, hkeys, hkeys'⟩ := h.files_perm h' hlate
  have hfile : ∀ f i, s₂.fileNodes f = some i → s₂'.fileNodes f = some (newFile s₂ s₂' i) :=
    fun f i hi => newFile_eq hnd hperm hkeys hkeys' hi
  have hinj : ∀ f g i j, s₂.fileNodes f = some i → s₂.fileNodes g = some j →
      newFile s₂ s₂' i = newFile s₂ s₂' j → i = j := fun f g i j => newFile_inj hnd hperm hkeys hkeys'
  refine ⟨newIndex_index h h', fun n m hnm => ?_, hfile, hinj, ?_⟩
  · rw [show (finishDump s₂).index = s₂.index from rfl, newIndex_index h h', newIndex_index h h'] at hnm
    exact newIndex_inj h h' hnm
  · -- the root, the elements of the nodes and those of the files
    have hroot : (rootElement (tu.relocate l)).withoutNode =
        ((rootElement tu).fill (newIndex tu s₂ s₂') (newFile s₂ s₂')).withoutNode := by
      have hsame : rootElement (tu.relocate l) = rootElement tu := rfl
      rw [hsame]
      unfold rootElement
      cases tu.gccxmlVersionFull <;> rfl
    have hnodes : ((s₂'.dumped.flatMap fun d => (nodeElements (tu.relocate l) d).map s₂'.fillElement).map
        Element.withoutNode).Perm ((s₂.dumped.flatMap fun d => (nodeElements tu d).map s₂.fillElement).map fun e =>
          (e.fill (newIndex tu s₂ s₂') (newFile s₂ s₂')).withoutNode) := by
      have hnode : ∀ d ∈ s₂.dumped, _ := fun d hd =>
        h.node_renumbered h' (fun f i hi => by simp [fileIndexOf, hfile f i hi]) hd
      rw [List.map_flatMap, List.map_flatMap, ← List.flatMap_congr hnode]
      exact (h.dumped_perm h' hlate).flatMap_right _
    rw [h.elements, h'.elements]
    simp only [List.map_append, List.map_cons]
    rw [hroot]
    exact (List.Perm.cons _ hnodes).append (files_renumbered hnd hperm hkeys hkeys' _)

end

/-- **What the dump owes to the addresses.** Two runs over one unit at different addresses both end. Up to the addresses
    that are printed, their states agree after the first phase, and so do the whole texts if the addresses order the
    nodes that stayed incomplete in the same way. Whatever the order, the same nodes have an index and are complete;
    and if no late request is made, the second document is the first with new numbers for the nodes and files that the
    first phase did not number. -/
theorem document_relocate (tu : TranslationUnit Node) (l : Layout Node) (starts : List Node) :
    ∃ s₁ s₁' s s', (∀ fuel, 2 * tu.nodes.length ≤ fuel →
        completePhase tu starts fuel = some s₁ ∧ completePhase (tu.relocate l) starts fuel = some s₁' ∧
        doXmlOutput tu starts fuel = some s ∧ doXmlOutput (tu.relocate l) starts fuel = some s') ∧
      s₁'.withoutNode = s₁.withoutNode ∧
      (SameOrder tu l s₁ →
        documentText (s'.file.map Frag.withoutNode) = documentText (s.file.map Frag.withoutNode)) ∧
      (∀ n, (s'.index n ≠ 0 ↔ s.index n ≠ 0) ∧ s'.complete n = s.complete n) ∧
      (NoLateRequest tu starts → ∃ ids files, Renumbers ids files s s' ∧
        (∀ n, s₁.index n ≠ 0 → ids (s₁.index n) = s₁.index n) ∧
        ∀ f i, s₁.fileNodes f = some i → files i = i) := by
  obtain ⟨s₁, s₂, h, -⟩ := exists_phasesEnd tu starts
  obtain ⟨s₁', s₂', h', -⟩ := exists_phasesEnd (tu.relocate l) starts
  have hlength : (tu.relocate l).nodes.length = tu.nodes.length := nodes_perm_relocate.length_eq
  obtain ⟨hfirst, hsecond⟩ := h.relocate h'
  refine ⟨s₁, s₁', finishDump s₂, finishDump s₂', fun fuel hf => ?_, hfirst, fun horder => ?_,
    fun n => h.same_nodes h' n, fun hlate => ?_⟩
  · obtain ⟨hc, hd⟩ := h.doXmlOutput hf
    obtain ⟨hc', hd'⟩ := h'.doXmlOutput (hlength ▸ hf)
    exact ⟨hc, hc', hd, hd'⟩
  · have hfinish := finishDump_relocate (hsecond horder)
    exact congrArg (fun s : DumpInfo Node => documentText s.file) hfinish
  · have hnew := h.renumbers h' hlate
    refine ⟨_, _, hnew, fun n hn => ?_, fun f i hi => ?_⟩
    · -- an index of the complete phase stays, on both sides, and the phase itself agrees
      have hindex : s₁'.index n = s₁.index n := field_eq hfirst (fun s => s.index n) fun _ => rfl
      calc newIndex tu s₂ s₂' (s₁.index n)
          = newIndex tu s₂ s₂' (s₂.index n) := by rw [h.extends.index n hn]
        _ = s₂'.index n := hnew.index n
        _ = s₁'.index n := h'.extends.index n (hindex ▸ hn)
        _ = s₁.index n := hindex
    · have hfiles : s₁'.fileNodes = s₁.fileNodes := field_eq hfirst DumpInfo.fileNodes fun _ => rfl
      have hold : s₂'.fileNodes f = some i := h'.extends.file f i (by rw [hfiles, hi])
      have hfile : s₂'.fileNodes f = some (newFile s₂ s₂' i) := hnew.file f i (h.extends.file f i hi)
      exact Option.some.inj (hfile.symm.trans hold)

end

/-! ### Two namespaces that stay incomplete

`namespace A { int x; }  namespace B { float y; }`, dumped from `x` and `y`: the contexts `A` and `B` are named but not
dumped in the first phase. -/

/-- The nodes of the example, with `A` below `B`. -/
def twoNamespaces : TranslationUnit (Fin 9) where
  globalNamespace := 0
  tree
    | 0 => { code := .namespaceDecl, declName := some "::" }
    | 1 => { code := .namespaceDecl, declName := some "A", declContext := some 0 }
    | 2 => { code := .namespaceDecl, declName := some "B", declContext := some 0 }
    | 3 => { code := .varDecl, declName := some "x", declContext := some 1, treeType := some 5 }
    | 4 => { code := .varDecl, declName := some "y", declContext := some 2, treeType := some 6 }
    | 5 => { code := .integerType, typeName := some 7 }
    | 6 => { code := .realType, typeName := some 8 }
    | 7 => { code := .typeDecl, declName := some "int", declSourceLine := 0, treeType := some 5 }
    | _ => { code := .typeDecl, declName := some "float", declSourceLine := 0, treeType := some 6 }
  nodes := List.finRange 9
  mem_nodes := List.mem_finRange
  address := Fin.val
  nodes_sorted := by decide
  rank
    | 7 | 8 => 1
    | _ => 0
  rank_lt := by decide

/-- Addresses with `B` below `A`. -/
def swappedNamespaces : Layout (Fin 9) where
  nodes := [0, 2, 1, 3, 4, 5, 6, 7, 8]
  mem_nodes := by decide
  address := fun n => if n = 1 then 2 else if n = 2 then 1 else n
  nodes_sorted := by decide

/-- The `Namespace` elements of `A` and `B` come in the order of the addresses. -/
theorem not_same_text_twoNamespaces :
    ∃ s s', doXmlOutput twoNamespaces [3, 4] 18 = some s ∧
      doXmlOutput (twoNamespaces.relocate swappedNamespaces) [3, 4] 18 = some s' ∧
      documentText (s'.file.map Frag.withoutNode) ≠ documentText (s.file.map Frag.withoutNode) :=
  ⟨_, _, rfl, rfl, by decide +kernel⟩

end GccXml
