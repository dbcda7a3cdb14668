import GccXml.Libiberty.SplayRuns
import GccXml.Xml.DumpQueue
import Mathlib.Logic.Equiv.List

namespace GccXml

/-! # `Xml.DumpMemory` — the dump with its splay trees and pointers

`struct xml_dump_info` as it lies in memory. The dump nodes are cells from `xmalloc`, a splay tree leads from a tree
node to its cell, the queue is made of recycled cells, and a second splay tree numbers the files. Every lookup changes
the shape of a tree. The functions here are those of `xml.c` on this state; `DumpInfo` is what they mean. A step
through an invalid pointer gives `none`.

The relation between the two is `Represents`. It consists of the relations of the parts, each from the module about
that part: the splay trees stand for finite maps, the queue for a list, a cell for the dump node that the map of
`DumpInfo` gives. Between the two halves of `xml_add_node_real` the cell of a node already exists and has the index 0;
`Holds` is the relation that admits this.

Each function is then simulated: from related states the step in memory succeeds, does what the step on the maps does,
and leads to related states. Since lookups only change shapes, most of a proof is finding the part of the relation that
a pointer write touches. The simulation goes up from single steps to an effect, to the effects of a node, to one round
of the loop and the loop, and the last theorem adds the clean-up, which walks the queue and both trees. -/

/-- `struct xml_dump_info`, with the record of the run in the last three fields. -/
structure DumpMemory (Node : Type) where
  file : List (OutFrag Node) := []
  requireComplete : Bool := true
  nextIndex : Nat := 1
  nodeQueue : DumpQueue Node Nat := {}
  dumpNodes : SearchTree Node Nat := .nil
  /-- The cells of `struct xml_dump_node`. -/
  heap : List DumpNode := []
  fileIndex : Nat := 0
  /-- The nodes of `file_nodes` that the file queue points to, by their keys. -/
  fileQueue : List String := []
  fileNodes : SearchTree String Nat := .nil
  registrations : List (Registration Node) := []
  dumped : List (Node × Bool) := []
  dumpBugs : List Node := []

namespace DumpMemory

open SplayTree (comparePointers)

variable {Node : Type} [DecidableEq Node] (tu : TranslationUnit Node) (identifier : String → Nat)

/-! ## The functions -/

/-- `xml_get_dump_node`, with the pointer to the dump node. -/
def xmlGetDumpNode (c : DumpMemory Node) (t : Node) : Option (DumpMemory Node × Nat) :=
  match SplayTree.lookup (comparePointers tu.address) c.dumpNodes t with
  | (dumpNodes, some n) => some ({ c with dumpNodes }, n.2)
  | (dumpNodes, none) =>
      let v := c.heap.length
      let dumpNodes := SplayTree.insert (comparePointers tu.address) dumpNodes t v
      (SplayTree.root dumpNodes).map fun n => ({ c with heap := c.heap ++ [⟨0, false⟩], dumpNodes }, n.2)

/-- Write to a dump node. -/
def modifyDumpNode (c : DumpMemory Node) (dn : Nat) (f : DumpNode → DumpNode) : Option (DumpMemory Node) :=
  if dn < c.heap.length then some { c with heap := c.heap.modify dn f } else none

/-- `xml_queue_node`. -/
def queueNode (c : DumpMemory Node) (t : Node) (dn : Nat) : Option (DumpMemory Node) :=
  (c.nodeQueue.xmlQueueNode t dn).map fun nodeQueue => { c with nodeQueue }

/-- Record a call of `xml_add_node_real` that returns `index`. -/
def recordCall (c : DumpMemory Node) (n : Node) (complete : Bool) (index : Nat) : DumpMemory Node :=
  { c with registrations := c.registrations ++ [⟨n, complete, c.requireComplete, index⟩] }

/-- `xml_add_node_real`, for a node that was encountered before. -/
def encountered (c : DumpMemory Node) (n : Node) (dn : Nat) (v : DumpNode) (complete : Bool) :
    Option (DumpMemory Node) :=
  let c := c.recordCall n complete v.index
  if complete && !v.complete then
    (c.modifyDumpNode dn fun v => { v with complete := true }).bind fun c => c.queueNode n dn
  else some c

/-- `xml_add_node_real`, for a new node. -/
def newNode (c : DumpMemory Node) (n : Node) (dn : Nat) (complete : Bool) : Option (DumpMemory Node) :=
  let c := c.recordCall n complete c.nextIndex
  (c.modifyDumpNode dn fun _ => ⟨c.nextIndex, complete⟩).bind fun c =>
    let c := { c with nextIndex := c.nextIndex + 1 }
    (if complete || !c.requireComplete then c.queueNode n dn else some c).map fun c =>
      if !c.requireComplete && complete then { c with dumpBugs := c.dumpBugs ++ [n] } else c

/-- `xml_add_node_real`. The index that it returns is the last one in `registrations`. -/
def addNodeReal (c : DumpMemory Node) (n : Node) (complete : Bool) : Option (DumpMemory Node) :=
  (c.xmlGetDumpNode tu n).bind fun (c, dn) =>
    c.heap[dn]?.bind fun v => if v.index ≠ 0 then c.encountered n dn v complete else c.newNode n dn complete

/-- `xml_queue_file`. -/
def queueFile (c : DumpMemory Node) (name : String) : Option (DumpMemory Node) :=
  match SplayTree.lookup (comparePointers identifier) c.fileNodes name with
  | (fileNodes, some _) => some { c with fileNodes }
  | (fileNodes, none) =>
      let fileNodes := SplayTree.insert (comparePointers identifier) fileNodes name c.fileIndex
      (SplayTree.root fileNodes).map fun n =>
        { c with fileIndex := c.fileIndex + 1, fileNodes, fileQueue := c.fileQueue ++ [n.1] }

/-- The index of a node, which an earlier `xml_add_node` has returned; 0 for null. -/
def indexOf (c : DumpMemory Node) (id : Option Node) : Nat :=
  ((id.bind fun n => c.dumpNodes.toList.lookup n).bind fun dn => c.heap[dn]?).elim 0 DumpNode.index

/-- The index of a file, which an earlier `xml_queue_file` has returned. -/
def fileIndexOf (c : DumpMemory Node) (f : String) : Nat := (c.fileNodes.toList.lookup f).getD 0

/-- Write a fragment. -/
def write (c : DumpMemory Node) (frag : SymFrag Node) : DumpMemory Node :=
  { c with file := c.file ++ [frag.fill c.indexOf c.fileIndexOf] }

/-- Run the calls of `xml_add_node_real` that a request makes. -/
def register (c : DumpMemory Node) (log : List (Node × Bool)) : Option (DumpMemory Node) :=
  log.foldlM (fun c r => c.addNodeReal tu r.1 r.2) c

/-- Carry out one effect of a printing function. -/
def exec (c : DumpMemory Node) : Action Node → Option (DumpMemory Node)
  | .emit frag => some (c.write frag)
  | .addNode n complete => c.register tu (xmlAddNode tu n complete).log
  | .queueFile name => c.queueFile identifier name

/-- Carry out the effects of a printing function. -/
def execAll (c : DumpMemory Node) (log : List (Action Node)) : Option (DumpMemory Node) :=
  log.foldlM (fun c a => c.exec tu identifier a) c

/-- The body of the loop of `xml_dump` after the removal of the entry of `t` and `dn`. -/
def xmlDumpNode (c : DumpMemory Node) (t : Node) (dn : Nat) : Option (DumpMemory Node) :=
  c.heap[dn]?.bind fun v =>
    { c with dumped := c.dumped ++ [(t, v.complete)] }.execAll tu identifier (xmlDumpTreeNode tu t v.complete).log

/-- One pass of the loop of `xml_dump`. -/
def dumpPass (c : DumpMemory Node) : Pass (DumpMemory Node) (Option (DumpMemory Node)) :=
  if c.nodeQueue.queue.isNone then .leave (some c)
  else
    match c.nodeQueue.takeNode.bind fun (nodeQueue, t, dn) => { c with nodeQueue }.xmlDumpNode tu identifier t dn with
    | some c => .again c
    | none => .leave none

/-- `xml_dump`, with `fuel` for its loop. -/
def xmlDump (fuel : Nat) (c : DumpMemory Node) : Option (DumpMemory Node) :=
  (loopRun (dumpPass tu identifier) fuel c).join

/-- `xml_queue_incomplete_dump_nodes`; it returns 0. -/
def xmlQueueIncompleteDumpNode (n : Node × Nat) (c : Option (DumpMemory Node)) : Option (DumpMemory Node) × Int :=
  (c.bind fun c => c.heap[n.2]?.bind fun v => if v.complete then some c else c.queueNode n.1 n.2, 0)

/-- The traversal of `dump_nodes` between the two dumps. -/
def queueIncompleteDumpNodes (c : DumpMemory Node) : Option (DumpMemory Node) :=
  (SplayTree.foreach xmlQueueIncompleteDumpNode c.dumpNodes (some c)).1

/-- The body of the loop of `xml_dump_files`. -/
def dumpFile (c : DumpMemory Node) (name : String) : Option (DumpMemory Node) :=
  (c.fileNodes.toList.lookup name).map fun index =>
    { c with file := c.file ++ [.startTag 2 "File", .attr "id" [.file index], .attr "name" [.str name], .emptyTag] }

/-- `xml_dump_files`. -/
def xmlDumpFiles (c : DumpMemory Node) : Option (DumpMemory Node) := c.fileQueue.foldlM dumpFile c

/-- **`do_xml_output`** up to its clean-up, with the requests `starts`. -/
def doXmlOutput (starts : List Node) (fuel : Nat) : Option (DumpMemory Node) := do
  let c ← ({} : DumpMemory Node).execAll tu identifier (startLog tu starts)
  let c ← c.xmlDump tu identifier fuel
  let c ← c.queueIncompleteDumpNodes
  let c ← { c with requireComplete := false }.xmlDump tu identifier fuel
  let c ← c.xmlDumpFiles
  return c.write (.endTag 0 "GCC_XML")

/-! ## What the memory means -/

/-- **The memory and its meaning**, except that a dump node whose index is 0 stands for a node without one. `ptr` leads
    from a tree node to its cell; every cell belongs to one tree node. -/
structure Holds (c : DumpMemory Node) (s : DumpInfo Node) (ptr : Node → Option Nat) : Prop where
  file : c.file = s.file
  requireComplete : c.requireComplete = s.requireComplete
  nextIndex : c.nextIndex = s.nextIndex
  registrations : c.registrations = s.registrations
  dumped : c.dumped = s.dumped
  dumpBugs : c.dumpBugs = s.dumpBugs
  dumpNodes : c.dumpNodes.Maps (comparePointers tu.address) ptr
  heap : ∀ n dn, ptr n = some dn → c.heap[dn]? = some (s.dumpNode n)
  absent : ∀ n, ptr n = none → s.dumpNodes n = none
  cells : (c.dumpNodes.toList.map Prod.snd).Perm (List.range c.heap.length)
  queue : ∃ waiting, DumpQueue.Holds c.nodeQueue waiting ∧ waiting.map Prod.fst = s.queue ∧
    ∀ e ∈ waiting, ptr e.1 = some e.2
  fileIndex : c.fileIndex = s.fileIndex
  fileNodes : c.fileNodes.Maps (comparePointers identifier) s.fileNodes
  fileQueue : c.fileQueue = s.fileQueue.map Prod.fst
  fileEntries : ∀ f ∈ s.fileQueue, s.fileNodes f.1 = some f.2

/-- **The memory represents the state**: between the calls of `xml_add_node_real` every dump node has an index. -/
structure Represents (c : DumpMemory Node) (s : DumpInfo Node) (ptr : Node → Option Nat) : Prop where
  holds : Holds tu identifier c s ptr
  stored : ∀ n, ptr n ≠ none → s.dumpNodes n ≠ none

/-! ### Addresses -/

omit [DecidableEq Node] in
theorem address_injective (tu : TranslationUnit Node) : Function.Injective tu.address := by
  intro n m heq
  have hnodup : (tu.nodes.map tu.address).Nodup := List.pairwise_map.mpr (tu.nodes_sorted.imp Nat.ne_of_lt)
  exact List.inj_on_of_nodup_map hnodup (tu.mem_nodes n) (tu.mem_nodes m) heq

omit [DecidableEq Node] in
theorem nodeComparison (tu : TranslationUnit Node) : Comparison (comparePointers tu.address) :=
  SplayTree.comparePointers_comparison (address_injective tu)

variable {tu identifier} {c c' : DumpMemory Node} {s : DumpInfo Node} {ptr : Node → Option Nat} {n : Node} {dn : Nat}

/-! ### The parts of a step -/

omit [DecidableEq Node] in
/-- Two tree nodes do not share a cell. -/
theorem Holds.ptr_inj (h : Holds tu identifier c s ptr) {m : Node} (hn : ptr n = some dn) (hm : ptr m = some dn) :
    n = m := by
  have hnodup : (c.dumpNodes.toList.map Prod.snd).Nodup := h.cells.nodup_iff.mpr List.nodup_range
  have heq : (n, dn) = (m, dn) :=
    List.inj_on_of_nodup_map hnodup (h.dumpNodes.mem.mpr hn) (h.dumpNodes.mem.mpr hm) rfl
  exact congrArg Prod.fst heq

omit [DecidableEq Node] in
theorem Holds.ptr_lt (h : Holds tu identifier c s ptr) (hn : ptr n = some dn) : dn < c.heap.length :=
  (List.getElem?_eq_some_iff.mp (h.heap n dn hn)).1

/-- **`xml_get_dump_node`** leads to the cell of the node, which may be a new one. -/
theorem Holds.xmlGetDumpNode (h : Holds tu identifier c s ptr) (n : Node) :
    ∃ c' dn ptr', c.xmlGetDumpNode tu n = some (c', dn) ∧ Holds tu identifier c' s ptr' ∧ ptr' n = some dn ∧
      (∀ m, m ≠ n → ptr' m = ptr m) ∧ c'.requireComplete = c.requireComplete ∧ c'.nextIndex = c.nextIndex := by
  obtain ⟨hmaps, hanswer⟩ := SplayTree.lookup_spec (nodeComparison tu) h.dumpNodes n
  have htoList : (SplayTree.lookup (comparePointers tu.address) c.dumpNodes n).1.toList = c.dumpNodes.toList :=
    hmaps.toList_eq (nodeComparison tu) h.dumpNodes.ordered fun k v => h.dumpNodes.mem
  unfold DumpMemory.xmlGetDumpNode
  generalize SplayTree.lookup (comparePointers tu.address) c.dumpNodes n = answer at hmaps hanswer htoList
  obtain ⟨tree, found⟩ := answer
  cases hptr : ptr n with
  | some dn =>
      rw [hptr, Option.map_some] at hanswer
      obtain rfl : found = some (n, dn) := hanswer
      refine ⟨_, dn, ptr, rfl, { h with dumpNodes := hmaps, cells := ?_ }, hptr, fun _ _ => rfl, rfl, rfl⟩
      rw [htoList]
      exact h.cells
  | none =>
      rw [hptr, Option.map_none] at hanswer
      obtain rfl : found = none := hanswer
      obtain ⟨hmaps', l, r, hroot⟩ := SplayTree.insert_spec (nodeComparison tu) hmaps n c.heap.length
      have hperm := hmaps.perm_insert (nodeComparison tu) hmaps' hptr
      dsimp only
      rw [hroot] at hmaps' hperm ⊢
      refine ⟨_, c.heap.length, fun m => if m = n then some c.heap.length else ptr m, rfl,
        { h with dumpNodes := hmaps', heap := ?_, absent := ?_, cells := ?_, queue := ?_ }, if_pos rfl,
        fun m hm => if_neg hm, rfl, rfl⟩
      · intro m dn hm
        by_cases hmn : m = n
        · subst hmn
          rw [if_pos rfl] at hm
          obtain rfl := Option.some.inj hm
          rw [List.getElem?_concat_length, DumpInfo.dumpNode, h.absent m hptr]
          rfl
        · rw [if_neg hmn] at hm
          rw [List.getElem?_append_left (h.ptr_lt hm)]
          exact h.heap m dn hm
      · intro m hm
        by_cases hmn : m = n
        · rw [if_pos hmn] at hm
          cases hm
        · rw [if_neg hmn] at hm
          exact h.absent m hm
      · have hvalues := (hperm.map Prod.snd).trans (List.perm_append_singleton _ _).symm
        rw [htoList] at hvalues
        refine hvalues.trans ?_
        rw [List.length_append, List.length_singleton, List.range_succ]
        exact h.cells.append_right _
      · obtain ⟨waiting, hqueue, hnodes, hptrs⟩ := h.queue
        refine ⟨waiting, hqueue, hnodes, fun e he => ?_⟩
        have hne : e.1 ≠ n := by
          intro heq
          have hsome := hptrs e he
          rw [heq, hptr] at hsome
          cases hsome
        rw [if_neg hne]
        exact hptrs e he

/-- **Writing to a dump node.** -/
theorem Holds.modifyDumpNode (h : Holds tu identifier c s ptr) (hn : ptr n = some dn) (f : DumpNode → DumpNode) :
    ∃ c', c.modifyDumpNode dn f = some c' ∧ Holds tu identifier c' (s.setDumpNode n (f (s.dumpNode n))) ptr ∧
      c'.requireComplete = c.requireComplete ∧ c'.nextIndex = c.nextIndex := by
  refine ⟨_, if_pos (h.ptr_lt hn), { h with heap := ?_, absent := ?_, cells := ?_ }, rfl, rfl⟩
  · intro m dn' hm
    by_cases hmn : m = n
    · subst hmn
      obtain rfl := Option.some.inj (hn.symm.trans hm)
      rw [List.getElem?_modify_eq, h.heap m dn hn]
      simp [DumpInfo.setDumpNode, DumpInfo.dumpNode]
    · have hne : dn ≠ dn' := fun heq => hmn (h.ptr_inj hm (heq ▸ hn))
      rw [List.getElem?_modify_ne _ _ hne, h.heap m dn' hm]
      simp [DumpInfo.setDumpNode, DumpInfo.dumpNode, hmn]
  · intro m hm
    have hmn : m ≠ n := by
      rintro rfl
      cases hn.symm.trans hm
    simpa [DumpInfo.setDumpNode, hmn] using h.absent m hm
  · rw [List.length_modify]
    exact h.cells

omit [DecidableEq Node] in
/-- **`xml_queue_node`.** -/
theorem Holds.queueNode (h : Holds tu identifier c s ptr) (hn : ptr n = some dn) :
    ∃ c', c.queueNode n dn = some c' ∧ Holds tu identifier c' (s.queueNode n) ptr ∧
      c'.requireComplete = c.requireComplete := by
  obtain ⟨waiting, hqueue, hnodes, hptrs⟩ := h.queue
  obtain ⟨q, hq, hqueue'⟩ := hqueue.xmlQueueNode n dn
  refine ⟨{ c with nodeQueue := q }, ?_, { h with queue := ⟨_, hqueue', ?_, ?_⟩ }, rfl⟩
  · rw [DumpMemory.queueNode, hq, Option.map_some]
  · rw [List.map_append, hnodes]
    rfl
  · intro e he
    rcases List.mem_append.mp he with he | he
    · exact hptrs e he
    · rw [List.mem_singleton.mp he]
      exact hn

omit [DecidableEq Node] in
theorem Holds.recordCall (h : Holds tu identifier c s ptr) (n : Node) (complete : Bool) (index : Nat) :
    Holds tu identifier (c.recordCall n complete index) (s.recordCall n complete index) ptr :=
  { h with registrations := by rw [DumpMemory.recordCall, DumpInfo.recordCall, h.registrations, h.requireComplete] }

/-- `xml_add_node_real`, for a node that was encountered before. -/
theorem Holds.encountered (h : Holds tu identifier c s ptr) (hn : ptr n = some dn) (complete : Bool)
    (hindex : (s.dumpNode n).index ≠ 0) :
    ∃ c', c.encountered n dn (s.dumpNode n) complete = some c' ∧
      Holds tu identifier c' (s.addNodeReal n complete) ptr := by
  have hrecord := h.recordCall n complete (s.dumpNode n).index
  simp only [DumpMemory.encountered, DumpInfo.addNodeReal, if_pos hindex]
  split
  · obtain ⟨c₁, hmodify, hholds₁, -, -⟩ := hrecord.modifyDumpNode hn fun v => { v with complete := true }
    obtain ⟨c₂, hqueue, hholds₂, -⟩ := hholds₁.queueNode hn
    refine ⟨c₂, ?_, hholds₂⟩
    rw [hmodify, Option.bind_some, hqueue]
  · exact ⟨_, rfl, hrecord⟩

omit [DecidableEq Node] in
/-- `xml_queue_node`, under a condition. -/
theorem Holds.queueNodeIf (h : Holds tu identifier c s ptr) (hn : ptr n = some dn) (b : Bool) :
    ∃ c', (if b then c.queueNode n dn else some c) = some c' ∧
      Holds tu identifier c' (if b then s.queueNode n else s) ptr ∧ c'.requireComplete = c.requireComplete := by
  cases b with
  | true => exact h.queueNode hn
  | false => exact ⟨c, rfl, h, rfl⟩

/-- A new node gets its index. -/
def numbered (s : DumpInfo Node) (n : Node) (complete : Bool) : DumpInfo Node :=
  { (s.recordCall n complete s.nextIndex).setDumpNode n ⟨s.nextIndex, complete⟩ with nextIndex := s.nextIndex + 1 }

/-- The report of a node that is complete in the incomplete phase. -/
def reportBug (s : DumpInfo Node) (n : Node) (complete : Bool) : DumpInfo Node :=
  if !s.requireComplete && complete then { s with dumpBugs := s.dumpBugs ++ [n] } else s

theorem addNodeReal_stages (complete : Bool) (hindex : (s.dumpNode n).index = 0) :
    s.addNodeReal n complete =
      reportBug (if complete || !s.requireComplete then (numbered s n complete).queueNode n else numbered s n complete)
        n complete := by
  simp only [DumpInfo.addNodeReal, hindex, ne_eq, not_true_eq_false, if_false]
  rfl

omit [DecidableEq Node] in
theorem Holds.reportBug (h : Holds tu identifier c s ptr) (n : Node) (complete : Bool) :
    Holds tu identifier (if !c.requireComplete && complete then { c with dumpBugs := c.dumpBugs ++ [n] } else c)
      (reportBug s n complete) ptr := by
  have hcond : (!c.requireComplete && complete) = (!s.requireComplete && complete) := by rw [h.requireComplete]
  unfold DumpMemory.reportBug
  rw [hcond]
  split
  · exact { h with dumpBugs := congrArg (· ++ [n]) h.dumpBugs }
  · exact h

/-- `xml_add_node_real`, for a new node. -/
theorem Holds.newNode (h : Holds tu identifier c s ptr) (hn : ptr n = some dn) (complete : Bool)
    (hindex : (s.dumpNode n).index = 0) :
    ∃ c', c.newNode n dn complete = some c' ∧ Holds tu identifier c' (s.addNodeReal n complete) ptr := by
  have hrecord := h.recordCall n complete s.nextIndex
  obtain ⟨c₁, hmodify, hholds₁, -, -⟩ := hrecord.modifyDumpNode hn fun _ => ⟨s.nextIndex, complete⟩
  have hnumbered : Holds tu identifier { c₁ with nextIndex := c₁.nextIndex + 1 } (numbered s n complete) ptr :=
    { hholds₁ with nextIndex := congrArg (· + 1) hholds₁.nextIndex }
  obtain ⟨c₂, hqueue, hholds₂, -⟩ := hnumbered.queueNodeIf hn (complete || !c₁.requireComplete)
  have hrequire : c₁.requireComplete = s.requireComplete := hholds₁.requireComplete
  have hnext : (c.recordCall n complete s.nextIndex).nextIndex = s.nextIndex := h.nextIndex
  refine ⟨_, ?_, addNodeReal_stages complete hindex ▸ hrequire ▸ hholds₂.reportBug n complete⟩
  unfold DumpMemory.newNode
  rw [h.nextIndex]
  dsimp only
  rw [hnext, hmodify, Option.bind_some, hqueue, Option.map_some]

/-- **`xml_add_node_real`** has the effect that it has on the maps. -/
theorem Represents.addNodeReal (h : Represents tu identifier c s ptr) (n : Node) (complete : Bool) :
    ∃ c' ptr', c.addNodeReal tu n complete = some c' ∧ Represents tu identifier c' (s.addNodeReal n complete) ptr' := by
  obtain ⟨c₁, dn, ptr', hget, hholds₁, hn, hothers, -, -⟩ := h.holds.xmlGetDumpNode n
  unfold DumpMemory.addNodeReal
  rw [hget, Option.bind_some]
  dsimp only
  rw [hholds₁.heap n dn hn, Option.bind_some]
  have hstored : ∀ m, ptr' m ≠ none → (s.addNodeReal n complete).dumpNodes m ≠ none := by
    intro m hm
    by_cases hmn : m = n
    · subst hmn
      by_cases hi : s.index m = 0
      · simp [DumpInfo.addNodeReal_new s m complete hi]
      · have hsome : s.dumpNodes m ≠ none := fun hnone => hi (by simp [DumpInfo.index, DumpInfo.dumpNode, hnone])
        rw [DumpInfo.addNodeReal_known s m complete hi]
        dsimp only
        split_ifs
        · simp
        · exact hsome
    · have hsome := h.stored m (hothers m hmn ▸ hm)
      by_cases hi : s.index n = 0
      · simp [DumpInfo.addNodeReal_new s n complete hi, hmn, hsome]
      · simp [DumpInfo.addNodeReal_known s n complete hi, hmn, hsome]
  by_cases hindex : (s.dumpNode n).index = 0
  · obtain ⟨c', heq, hholds⟩ := hholds₁.newNode hn complete hindex
    rw [if_neg (by simp [hindex])]
    exact ⟨c', ptr', heq, hholds, hstored⟩
  · obtain ⟨c', heq, hholds⟩ := hholds₁.encountered hn complete hindex
    rw [if_pos hindex]
    exact ⟨c', ptr', heq, hholds, hstored⟩


omit [DecidableEq Node] in
/-- **`xml_queue_file`** has the effect that it has on the map of the files. -/
theorem Holds.queueFile (hid : Function.Injective identifier) (h : Holds tu identifier c s ptr) (name : String) :
    ∃ c', c.queueFile identifier name = some c' ∧ Holds tu identifier c' (s.queueFile name) ptr := by
  have hcomp := SplayTree.comparePointers_comparison hid
  obtain ⟨hmaps, hanswer⟩ := SplayTree.lookup_spec hcomp h.fileNodes name
  unfold DumpMemory.queueFile DumpInfo.queueFile
  generalize SplayTree.lookup (comparePointers identifier) c.fileNodes name = answer at hmaps hanswer
  obtain ⟨tree, found⟩ := answer
  cases hfile : s.fileNodes name with
  | some index =>
      rw [hfile, Option.map_some] at hanswer
      obtain rfl : found = some (name, index) := hanswer
      exact ⟨_, rfl, { h with fileNodes := hmaps }⟩
  | none =>
      rw [hfile, Option.map_none] at hanswer
      obtain rfl : found = none := hanswer
      obtain ⟨hmaps', l, r, hroot⟩ := SplayTree.insert_spec hcomp hmaps name c.fileIndex
      dsimp only
      rw [hroot] at hmaps' ⊢
      refine ⟨_, rfl, { h with fileIndex := ?_, fileNodes := ?_, fileQueue := ?_, fileEntries := ?_ }⟩
      · exact congrArg (· + 1) h.fileIndex
      · rw [← h.fileIndex]
        exact hmaps'
      · rw [List.map_append, ← h.fileQueue]
        rfl
      · intro f hf
        rcases List.mem_append.mp hf with hf | hf
        · have hne : f.1 ≠ name := by
            intro heq
            have hsome := h.fileEntries f hf
            rw [heq, hfile] at hsome
            cases hsome
          dsimp only
          rw [if_neg hne]
          exact h.fileEntries f hf
        · rw [List.mem_singleton.mp hf]
          exact if_pos rfl

/-! ### Writing -/

/-- **The indices are right**: the cell of a node holds its index. -/
theorem Holds.indexOf (h : Holds tu identifier c s ptr) : c.indexOf = s.indexOf := by
  funext id
  cases id with
  | none => rfl
  | some n =>
      rw [DumpMemory.indexOf, Option.bind_some, h.dumpNodes.lookup_eq (nodeComparison tu)]
      cases hn : ptr n with
      | none =>
          have hnone := h.absent n hn
          simp [DumpInfo.indexOf, DumpInfo.index, DumpInfo.dumpNode, hnone]
      | some dn =>
          rw [Option.bind_some, h.heap n dn hn]
          rfl

omit [DecidableEq Node] in
theorem Holds.fileIndexOf (hid : Function.Injective identifier) (h : Holds tu identifier c s ptr) :
    c.fileIndexOf = s.fileIndexOf := by
  funext f
  rw [DumpMemory.fileIndexOf, h.fileNodes.lookup_eq (SplayTree.comparePointers_comparison hid)]
  rfl

theorem Holds.write (hid : Function.Injective identifier) (h : Holds tu identifier c s ptr) (frag : SymFrag Node) :
    Holds tu identifier (c.write frag) (s.write frag) ptr :=
  { h with file := by rw [DumpMemory.write, DumpInfo.write, h.file, h.indexOf, h.fileIndexOf hid] }

/-! ### Printing a node -/

theorem Represents.register (h : Represents tu identifier c s ptr) (log : List (Node × Bool)) :
    ∃ c' ptr', c.register tu log = some c' ∧ Represents tu identifier c' (s.register log) ptr' := by
  induction log generalizing c s ptr with
  | nil => exact ⟨c, ptr, rfl, h⟩
  | cons r log ih =>
      obtain ⟨c₁, ptr₁, hadd, h₁⟩ := h.addNodeReal r.1 r.2
      obtain ⟨c₂, ptr₂, hrest, h₂⟩ := ih h₁
      refine ⟨c₂, ptr₂, ?_, h₂⟩
      rw [DumpMemory.register, List.foldlM_cons, hadd]
      exact hrest

/-- **One effect of a printing function.** -/
theorem Represents.exec (hid : Function.Injective identifier) (h : Represents tu identifier c s ptr)
    (a : Action Node) :
    ∃ c' ptr', c.exec tu identifier a = some c' ∧ Represents tu identifier c' (s.exec tu a) ptr' := by
  cases a with
  | emit frag => exact ⟨_, ptr, rfl, h.holds.write hid frag, h.stored⟩
  | addNode n complete => exact h.register _
  | queueFile name =>
      obtain ⟨c', hqueue, hholds⟩ := h.holds.queueFile hid name
      obtain ⟨_, _, _, heq⟩ := DumpInfo.queueFile_eq s name
      refine ⟨c', ptr, hqueue, hholds, fun n hn => ?_⟩
      have hdumpNodes : (s.queueFile name).dumpNodes = s.dumpNodes := by rw [heq]
      show (s.queueFile name).dumpNodes n ≠ none
      rw [hdumpNodes]
      exact h.stored n hn

theorem Represents.execAll (hid : Function.Injective identifier) (h : Represents tu identifier c s ptr)
    (log : List (Action Node)) :
    ∃ c' ptr', c.execAll tu identifier log = some c' ∧ Represents tu identifier c' (s.execAll tu log) ptr' := by
  induction log generalizing c s ptr with
  | nil => exact ⟨c, ptr, rfl, h⟩
  | cons a log ih =>
      obtain ⟨c₁, ptr₁, hexec, h₁⟩ := h.exec hid a
      obtain ⟨c₂, ptr₂, hrest, h₂⟩ := ih h₁
      refine ⟨c₂, ptr₂, ?_, h₂⟩
      rw [DumpMemory.execAll, List.foldlM_cons, hexec]
      exact hrest

/-! ### The loop of `xml_dump` -/

omit [DecidableEq Node] in
theorem Represents.queue_eq_nil_iff (h : Represents tu identifier c s ptr) :
    c.nodeQueue.queue.isNone = true ↔ s.queue = [] := by
  obtain ⟨waiting, hqueue, hnodes, -⟩ := h.holds.queue
  rw [Option.isNone_iff_eq_none, hqueue.queue_eq_none_iff, ← hnodes, List.map_eq_nil_iff]

theorem Represents.dumpPass_leave (h : Represents tu identifier c s ptr) (hq : s.queue = []) :
    c.dumpPass tu identifier = .leave (some c) := if_pos (h.queue_eq_nil_iff.mpr hq)

/-- **One round** takes the first node and prints it. -/
theorem Represents.dumpPass (hid : Function.Injective identifier) (h : Represents tu identifier c s ptr)
    {rest : List Node} (hq : s.queue = n :: rest) :
    ∃ c' ptr', c.dumpPass tu identifier = .again c' ∧
      Represents tu identifier c' (GccXml.xmlDumpNode tu { s with queue := rest } n) ptr' := by
  have hbusy : ¬ c.nodeQueue.queue.isNone = true := by
    rw [h.queue_eq_nil_iff, hq]
    exact List.cons_ne_nil n rest
  obtain ⟨waiting, hqueue, hnodes, hptrs⟩ := h.holds.queue
  cases waiting with
  | nil =>
      rw [hq] at hnodes
      cases hnodes
  | cons e waiting =>
      obtain ⟨m, dn⟩ := e
      rw [hq, List.map_cons, List.cons.injEq] at hnodes
      obtain ⟨rfl, hnodes⟩ := hnodes
      obtain ⟨q, htake, hqueue'⟩ := hqueue.takeNode
      have hptr := hptrs (m, dn) List.mem_cons_self
      have htaken : Represents tu identifier { c with nodeQueue := q, dumped := c.dumped ++ [(m, s.complete m)] }
          { s with queue := rest, dumped := s.dumped ++ [(m, s.complete m)] } ptr :=
        ⟨{ h.holds with
            dumped := congrArg (· ++ [(m, s.complete m)]) h.holds.dumped
            queue := ⟨waiting, hqueue', hnodes, fun e he => hptrs e (List.mem_cons_of_mem _ he)⟩ }, h.stored⟩
      obtain ⟨c', ptr', hexec, h'⟩ := htaken.execAll hid (xmlDumpTreeNode tu m (s.complete m)).log
      have hdump : ({ c with nodeQueue := q } : DumpMemory Node).xmlDumpNode tu identifier m dn = some c' := by
        rw [DumpMemory.xmlDumpNode, h.holds.heap m dn hptr, Option.bind_some]
        exact hexec
      refine ⟨c', ptr', ?_, h'⟩
      unfold DumpMemory.dumpPass
      rw [if_neg hbusy, htake, Option.bind_some]
      dsimp only
      rw [hdump]

/-- **The loop in memory** ends when the loop on the maps does, and their states agree. -/
theorem Represents.xmlDump (hid : Function.Injective identifier) (h : Represents tu identifier c s ptr) {fuel : Nat}
    {s' : DumpInfo Node} (hrun : GccXml.xmlDump tu fuel s = some s') :
    ∃ c' ptr', c.xmlDump tu identifier (fuel + 1) = some c' ∧ Represents tu identifier c' s' ptr' := by
  unfold DumpMemory.xmlDump
  induction fuel generalizing c s ptr with
  | zero =>
      cases hq : s.queue with
      | nil =>
          rw [xmlDump_of_queue_nil hq] at hrun
          obtain rfl := Option.some.inj hrun
          refine ⟨c, ptr, ?_, h⟩
          rw [Loop.loopRun_leave (h.dumpPass_leave hq), Option.join_some]
      | cons n rest =>
          rw [xmlDump_zero_of_queue_cons hq] at hrun
          cases hrun
  | succ fuel ih =>
      cases hq : s.queue with
      | nil =>
          rw [xmlDump_of_queue_nil hq] at hrun
          obtain rfl := Option.some.inj hrun
          refine ⟨c, ptr, ?_, h⟩
          rw [Loop.loopRun_leave (h.dumpPass_leave hq), Option.join_some]
      | cons n rest =>
          rw [xmlDump_of_queue_cons hq] at hrun
          obtain ⟨c₁, ptr₁, hpass, h₁⟩ := h.dumpPass hid hq
          rw [Loop.loopRun_again hpass]
          exact ih h₁ hrun

/-! ### The incomplete nodes -/

omit [DecidableEq Node] in
/-- The traversal queues the incomplete ones of the nodes that it visits. -/
theorem Holds.queueIncomplete (h : Holds tu identifier c s ptr) {es : List (Node × Nat)}
    (hes : ∀ e ∈ es, ptr e.1 = some e.2) :
    ∃ c', es.foldl (fun c e => (xmlQueueIncompleteDumpNode e c).1) (some c) = some c' ∧
      Holds tu identifier c'
        { s with queue := s.queue ++ (es.filter fun e => !s.complete e.1).map Prod.fst } ptr := by
  induction es generalizing c s with
  | nil => exact ⟨c, rfl, by simpa using h⟩
  | cons e es ih =>
      have hptr := hes e List.mem_cons_self
      have hrest := fun e he => hes e (List.mem_cons_of_mem _ he)
      rw [List.foldl_cons, List.filter_cons]
      have hstep : (xmlQueueIncompleteDumpNode e (some c)).1 =
          if s.complete e.1 then some c else c.queueNode e.1 e.2 := by
        rw [xmlQueueIncompleteDumpNode, Option.bind_some, h.heap e.1 e.2 hptr]
        rfl
      rw [hstep]
      cases hcomplete : s.complete e.1 with
      | true => exact ih h hrest
      | false =>
          obtain ⟨c₁, hqueue, h₁, -⟩ := h.queueNode hptr
          obtain ⟨c₂, hfold, h₂⟩ := ih h₁ hrest
          refine ⟨c₂, ?_, ?_⟩
          · rw [← hfold, ← hqueue]
            rfl
          · have hqueue₂ := h₂.queue
            rw [DumpInfo.queueNode, List.append_assoc] at hqueue₂
            exact { h₂ with queue := hqueue₂ }

omit [DecidableEq Node] in
/-- The traversal visits the nodes in the order of their addresses. -/
theorem Represents.incomplete (h : Represents tu identifier c s ptr) :
    (c.dumpNodes.toList.filter fun e => !s.complete e.1).map Prod.fst =
      tu.nodes.filter fun n => (s.dumpNodes n).any fun dn => !dn.complete := by
  have hentries : c.dumpNodes.toList = tu.nodes.filterMap fun n => (ptr n).map fun dn => (n, dn) := by
    refine h.holds.dumpNodes.toList_eq (nodeComparison tu) ?_ fun n dn => ?_
    · refine List.pairwise_filterMap.mpr (tu.nodes_sorted.imp fun {a b} hlt e he e' he' => ?_)
      obtain ⟨_, -, rfl⟩ := Option.map_eq_some_iff.mp he
      obtain ⟨_, -, rfl⟩ := Option.map_eq_some_iff.mp he'
      simp [comparePointers, hlt]
    · simp [List.mem_filterMap, tu.mem_nodes]
  rw [hentries, List.filter_filterMap, List.map_filterMap, ← List.filterMap_eq_filter]
  refine List.filterMap_congr fun n _ => ?_
  cases hptr : ptr n with
  | none => simp [Option.guard, h.holds.absent n hptr]
  | some dn =>
      obtain ⟨v, hv⟩ := Option.ne_none_iff_exists'.mp (h.stored n (by simp [hptr]))
      cases hcomplete : v.complete <;>
        simp [Option.guard, Option.filter, hv, DumpInfo.complete, DumpInfo.dumpNode, hcomplete]

omit [DecidableEq Node] in
/-- **Between the phases**, `splay_tree_foreach` queues the incomplete nodes in the order of their addresses. -/
theorem Represents.queueIncompleteDumpNodes (h : Represents tu identifier c s ptr) :
    ∃ c', c.queueIncompleteDumpNodes = some c' ∧
      Represents tu identifier c' (GccXml.queueIncompleteDumpNodes tu s) ptr := by
  obtain ⟨c', hfold, hholds⟩ := h.holds.queueIncomplete fun e he => h.holds.dumpNodes.mem.mp he
  rw [h.incomplete] at hholds
  refine ⟨c', ?_, hholds, h.stored⟩
  have hzero : ∀ (e : Node × Nat) c, (xmlQueueIncompleteDumpNode e c).2 = 0 := fun _ _ => rfl
  rw [DumpMemory.queueIncompleteDumpNodes, SplayTree.foreach_eq, SplayTree.visit_of_zero hzero]
  exact hfold

/-! ### The end -/

omit [DecidableEq Node] in
theorem foldlM_dumpFile (c : DumpMemory Node) {files : List (String × Nat)}
    (hfiles : ∀ f ∈ files, c.fileNodes.toList.lookup f.1 = some f.2) :
    (files.map Prod.fst).foldlM dumpFile c = some { c with
      file := c.file ++ files.flatMap fun (name, index) =>
        [.startTag 2 "File", .attr "id" [.file index], .attr "name" [.str name], .emptyTag] } := by
  induction files generalizing c with
  | nil => rw [List.map_nil, List.foldlM_nil, List.flatMap_nil, List.append_nil]; rfl
  | cons f files ih =>
      have hrest := fun g hg => hfiles g (List.mem_cons_of_mem _ hg)
      rw [List.map_cons, List.foldlM_cons, dumpFile, hfiles f List.mem_cons_self, Option.map_some,
        Option.bind_eq_bind, Option.bind_some]
      refine (ih _ ?_).trans ?_
      · exact hrest
      · rw [List.flatMap_cons, ← List.append_assoc]

omit [DecidableEq Node] in
/-- **`xml_dump_files`** writes the entries of the queue. -/
theorem Holds.xmlDumpFiles (hid : Function.Injective identifier) (h : Holds tu identifier c s ptr) :
    ∃ c', c.xmlDumpFiles = some c' ∧ Holds tu identifier c' (GccXml.xmlDumpFiles s) ptr := by
  have hfiles : ∀ f ∈ s.fileQueue, c.fileNodes.toList.lookup f.1 = some f.2 := by
    intro f hf
    rw [h.fileNodes.lookup_eq (SplayTree.comparePointers_comparison hid)]
    exact h.fileEntries f hf
  have hfold := foldlM_dumpFile c hfiles
  rw [← h.fileQueue] at hfold
  refine ⟨_, hfold, { h with file := ?_ }⟩
  rw [GccXml.xmlDumpFiles, h.file]

omit [DecidableEq Node] in
/-- The memory before the first request. -/
theorem represents_empty : Represents tu identifier ({} : DumpMemory Node) {} fun _ => none where
  holds :=
    { file := rfl
      requireComplete := rfl
      nextIndex := rfl
      registrations := rfl
      dumped := rfl
      dumpBugs := rfl
      dumpNodes := SearchTree.maps_nil
      heap := fun n dn hn => by cases hn
      absent := fun n _ => rfl
      cells := List.Perm.nil
      queue := ⟨[], DumpQueue.holds_empty, rfl, fun e he => by cases he⟩
      fileIndex := rfl
      fileNodes := SearchTree.maps_nil
      fileQueue := rfl
      fileEntries := fun f hf => by cases hf }
  stored := fun n hn => absurd rfl hn

/-- **The dump in memory writes the document.** With splay trees, pointers and recycled cells `do_xml_output` ends, goes
    through valid pointers only, returns the same indices and writes the same document as with maps and lists. Then its
    clean-up frees every cell of the queue once, and `splay_tree_delete` frees every dump node once. -/
theorem doXmlOutput_in_memory (tu : TranslationUnit Node) (hid : Function.Injective identifier) (starts : List Node)
    {fuel : Nat} (hfuel : 2 * tu.nodes.length < fuel) :
    ∃ s c, GccXml.doXmlOutput tu starts fuel = some s ∧ DumpMemory.doXmlOutput tu identifier starts fuel = some c ∧
      c.file = s.file ∧ c.registrations = s.registrations ∧ c.dumped = s.dumped ∧
      (∃ cells, Loop.Result (DumpQueue.cleanUpPass c.nodeQueue) ([], c.nodeQueue.queueFree) (some cells) ∧
        cells.Perm (List.range c.nodeQueue.cells.length)) ∧
      ∃ d, Loop.Result SplayTree.deletePass (SplayTree.deleteStart c.dumpNodes) (some d) ∧
        d.freed.Perm c.dumpNodes.toList ∧ (d.deleted.map Prod.snd).Perm (List.range c.heap.length) := by
  obtain ⟨k, rfl⟩ : ∃ k, fuel = k + 1 := ⟨fuel - 1, by omega⟩
  obtain ⟨s₁, s₂, hphases, -, -, -, hqueue₂⟩ := exists_phasesEnd tu starts
  have hempty : Represents tu identifier ({} : DumpMemory Node) {} fun _ => none := represents_empty
  obtain ⟨c₀, ptr₀, hstart, h₀⟩ := hempty.execAll hid (startLog tu starts)
  obtain ⟨c₁, ptr₁, hfirst, h₁⟩ := h₀.xmlDump hid (xmlDump_mono hphases.first (by omega : _ ≤ k))
  obtain ⟨c₂, hincomplete, h₂⟩ := h₁.queueIncompleteDumpNodes
  have hswitch : Represents tu identifier { c₂ with requireComplete := false } (startIncomplete tu s₁) ptr₁ :=
    ⟨{ h₂.holds with requireComplete := rfl }, h₂.stored⟩
  obtain ⟨c₃, ptr₃, hsecond, h₃⟩ := hswitch.xmlDump hid (xmlDump_mono hphases.second (by omega : _ ≤ k))
  obtain ⟨c₄, hfiles, h₄⟩ := h₃.holds.xmlDumpFiles hid
  have hend := h₄.write hid (.endTag 0 "GCC_XML")
  refine ⟨_, c₄.write (.endTag 0 "GCC_XML"), (hphases.doXmlOutput (by omega)).2, ?_, hend.file, hend.registrations,
    hend.dumped, ?_, ?_⟩
  · simp only [DumpMemory.doXmlOutput, hstart, hfirst, hincomplete, hsecond, hfiles, Option.bind_eq_bind,
      Option.bind_some, Option.pure_def]
  · obtain ⟨waiting, hholds, hnodes, -⟩ := hend.queue
    have hempty : waiting = [] := List.map_eq_nil_iff.mp (hnodes.trans hqueue₂)
    obtain ⟨Q, F, hrep, -⟩ := id hholds
    obtain ⟨hcells, hresult⟩ := hrep.cleanUp (hholds.queue_eq_none_iff.mpr hempty)
    exact ⟨F, hresult, hcells⟩
  · obtain ⟨d, hresult, hdeleted, hfreed⟩ := (SplayTree.delete_spec c₄.dumpNodes).1
    exact ⟨d, hresult, hfreed, (hdeleted.map Prod.snd).trans hend.cells⟩

/-! ### One variable

The variable `x` of the namespace `A`, with addresses for the names. -/

/-- An address for every name: names are interned, so different ones lie at different places. -/
def nameAddress (name : String) : Nat := Encodable.encode (name.toList.map Char.toNat)

theorem nameAddress_injective : Function.Injective nameAddress := by
  intro a b h
  have hcodes : a.toList.map Char.toNat = b.toList.map Char.toNat := Encodable.encode_injective h
  have htoNat : Function.Injective Char.toNat := fun c d hcd => Char.toNat_inj.mp hcd
  exact String.toList_inj.mp (List.map_injective_iff.mpr htoNat hcodes)

/-- The nodes for `namespace A { int x; }`. -/
inductive VariableNode where
  | global
  | A
  | x
  | int
  | intDecl
deriving DecidableEq

def oneVariable : TranslationUnit VariableNode where
  globalNamespace := .global
  tree
    | .global => { code := .namespaceDecl, declName := some "::" }
    | .A => { code := .namespaceDecl, declName := some "A", declContext := some .global }
    | .x => { code := .varDecl, declName := some "x", declContext := some .A, treeType := some .int }
    | .int => { code := .integerType, typeName := some .intDecl }
    | .intDecl => { code := .typeDecl, declName := some "int", declSourceLine := 0, treeType := some .int }
  nodes := [.global, .A, .x, .int, .intDecl]
  mem_nodes n := by cases n <;> decide
  address n := n.ctorIdx
  nodes_sorted := by decide
  rank n := if n = .intDecl then 1 else 0
  rank_lt n := by cases n <;> decide

/-- The dump of `x`: the variable, its type, and the two namespaces. -/
theorem doXmlOutput_in_memory_oneVariable :
    ∃ s c, GccXml.doXmlOutput oneVariable [.x] 11 = some s ∧
      DumpMemory.doXmlOutput oneVariable nameAddress [.x] 11 = some c ∧ c.file = s.file ∧
        c.dumped = [(.x, true), (.int, true), (.A, false), (.global, false)] := by
  have hfuel : 2 * oneVariable.nodes.length < 11 := by decide
  obtain ⟨s, c, hs, hc, hfile, -, hdumped, -⟩ := doXmlOutput_in_memory oneVariable nameAddress_injective [.x] hfuel
  obtain ⟨s', hs', hdumped'⟩ : ∃ s', GccXml.doXmlOutput oneVariable [.x] 11 = some s' ∧
      s'.dumped = [(.x, true), (.int, true), (.A, false), (.global, false)] := ⟨_, rfl, rfl⟩
  obtain rfl := Option.some.inj (hs.symm.trans hs')
  exact ⟨s, c, hs, hc, hfile, hdumped.trans hdumped'⟩

end DumpMemory

end GccXml
