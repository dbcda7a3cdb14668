import GccXml.Xml.Output

namespace GccXml

/-! # `Xml.Dump` — the state of the dump and its two phases

`do_xml_output` requests the start nodes, prints every complete node, queues the nodes that stayed incomplete and
prints those. The state is `struct xml_dump_info`; the splay trees are finite maps and the queues are lists with
their first entry in front. Two lists record what happened: the calls of `xml_add_node_real` and the nodes handed
to `xml_dump_tree_node`. -/

/-- `struct xml_dump_node`. -/
structure DumpNode where
  index : Nat := 0
  complete : Bool := false
  deriving DecidableEq, Repr

/-- A call of `xml_add_node_real`: its arguments, the phase it came in and the index it returned. -/
structure Registration (Node : Type) where
  node : Node
  complete : Bool
  requireComplete : Bool
  index : Nat
  deriving DecidableEq

/-- A fragment as it is written, with every index filled in. -/
abbrev OutPiece (Node : Type) := Piece Node Nat Nat

@[inherit_doc OutPiece] abbrev OutFrag (Node : Type) := Frag Node Nat Nat

/-- `struct xml_dump_info`, with the record of the run in the last three fields. -/
structure DumpInfo (Node : Type) where
  file : List (OutFrag Node) := []
  requireComplete : Bool := true
  nextIndex : Nat := 1
  queue : List Node := []
  dumpNodes : Node → Option DumpNode := fun _ => none
  fileIndex : Nat := 0
  fileQueue : List (String × Nat) := []
  fileNodes : String → Option Nat := fun _ => none
  /-- The calls of `xml_add_node_real`. -/
  registrations : List (Registration Node) := []
  /-- The nodes handed to `xml_dump_tree_node`, with the flag of their dump node at that time. -/
  dumped : List (Node × Bool) := []
  /-- The nodes reported by `XML dump bug: complete node added during incomplete phase`. -/
  dumpBugs : List Node := []

/-! ## Writing fragments -/

/-- Fill in the indices of a piece. -/
def Piece.fill {Node ι φ : Type} (index : ι → Nat) (fileIndex : φ → Nat) : Piece Node ι φ → OutPiece Node
  | .str text => .str text
  | .num value => .num value
  | .ptr address => .ptr address
  | .file f => .file (fileIndex f)
  | .id i => .id (index i)
  | .typeId t i suffix => .typeId t (index i) suffix

/-- Fill in the indices of a fragment. -/
def Frag.fill {Node ι φ : Type} (index : ι → Nat) (fileIndex : φ → Nat) : Frag Node ι φ → OutFrag Node
  | .prolog text => .prolog text
  | .startTag indent tag => .startTag indent tag
  | .attr name value => .attr name (value.map (Piece.fill index fileIndex))
  | .endStartTag => .endStartTag
  | .emptyTag => .emptyTag
  | .endTag indent tag => .endTag indent tag
  | .blanks count => .blanks count

namespace DumpInfo

variable {Node : Type} [DecidableEq Node]

/-- The dump node of `n`; a node that was never registered has index 0. -/
def dumpNode (s : DumpInfo Node) (n : Node) : DumpNode := (s.dumpNodes n).getD {}

/-- `dn->index` for the dump node of `n`. -/
def index (s : DumpInfo Node) (n : Node) : Nat := (s.dumpNode n).index

/-- `dn->complete` for the dump node of `n`. -/
def complete (s : DumpInfo Node) (n : Node) : Bool := (s.dumpNode n).complete

/-- The number printed for an index: 0 when there is no dump node. -/
def indexOf (s : DumpInfo Node) (id : Option Node) : Nat := id.elim 0 s.index

/-- The number printed for the file with the encoded name `f`. -/
def fileIndexOf (s : DumpInfo Node) (f : String) : Nat := (s.fileNodes f).getD 0

/-- Store the dump node of `n`. -/
def setDumpNode (s : DumpInfo Node) (n : Node) (dn : DumpNode) : DumpInfo Node :=
  { s with dumpNodes := fun m => if m = n then some dn else s.dumpNodes m }

/-- `xml_queue_node`. -/
def queueNode (s : DumpInfo Node) (n : Node) : DumpInfo Node := { s with queue := s.queue ++ [n] }

/-- Record a call of `xml_add_node_real` that returns `index`. -/
def recordCall (s : DumpInfo Node) (n : Node) (complete : Bool) (index : Nat) : DumpInfo Node :=
  { s with registrations := s.registrations ++ [⟨n, complete, s.requireComplete, index⟩] }

/-- The state change of `xml_add_node_real`. -/
def addNodeReal (s : DumpInfo Node) (n : Node) (complete : Bool) : DumpInfo Node :=
  let dn := s.dumpNode n
  if dn.index ≠ 0 then
    let s := s.recordCall n complete dn.index
    if complete && !dn.complete then (s.setDumpNode n { dn with complete := true }).queueNode n else s
  else
    let s := s.recordCall n complete s.nextIndex
    let s := { s.setDumpNode n ⟨s.nextIndex, complete⟩ with nextIndex := s.nextIndex + 1 }
    let s := if complete || !s.requireComplete then s.queueNode n else s
    if !s.requireComplete && complete then { s with dumpBugs := s.dumpBugs ++ [n] } else s

/-- The state change of `xml_queue_file`. -/
def queueFile (s : DumpInfo Node) (name : String) : DumpInfo Node :=
  match s.fileNodes name with
  | some _ => s
  | none =>
      { s with
        fileIndex := s.fileIndex + 1
        fileQueue := s.fileQueue ++ [(name, s.fileIndex)]
        fileNodes := fun f => if f = name then some s.fileIndex else s.fileNodes f }

/-- Write a fragment, with the indices of this moment. -/
def write (s : DumpInfo Node) (frag : SymFrag Node) : DumpInfo Node :=
  { s with file := s.file ++ [frag.fill s.indexOf s.fileIndexOf] }

/-- Run the calls of `xml_add_node_real` that a request makes. -/
def register (s : DumpInfo Node) (log : List (Node × Bool)) : DumpInfo Node :=
  log.foldl (fun s r => s.addNodeReal r.1 r.2) s

/-- Carry out one effect of a printing function. -/
def exec (tu : TranslationUnit Node) (s : DumpInfo Node) : Action Node → DumpInfo Node
  | .emit frag => s.write frag
  | .addNode n complete => s.register (xmlAddNode tu n complete).log
  | .queueFile name => s.queueFile name

/-- Carry out the effects of a printing function. -/
def execAll (tu : TranslationUnit Node) (s : DumpInfo Node) (log : List (Action Node)) : DumpInfo Node :=
  log.foldl (exec tu) s

end DumpInfo

/-! ## The dump loop -/

section
variable {Node : Type} [DecidableEq Node] (tu : TranslationUnit Node)

/-- The body of the loop of `xml_dump` for the queue entry `n`, after its removal from the queue. -/
def xmlDumpNode (s : DumpInfo Node) (n : Node) : DumpInfo Node :=
  let complete := s.complete n
  { s with dumped := s.dumped ++ [(n, complete)] }.execAll tu (xmlDumpTreeNode tu n complete).log

/-- `xml_dump`, with `fuel` for its loop. -/
def xmlDump : Nat → DumpInfo Node → Option (DumpInfo Node)
  | 0, s => if s.queue.isEmpty then some s else none
  | fuel + 1, s =>
      match s.queue with
      | [] => some s
      | n :: rest => xmlDump fuel (xmlDumpNode tu { s with queue := rest } n)

/-- The calls of `xml_queue_incomplete_dump_nodes` for every node of the splay tree, in address order. -/
def queueIncompleteDumpNodes (s : DumpInfo Node) : DumpInfo Node :=
  { s with queue := s.queue ++ tu.nodes.filter fun n => (s.dumpNodes n).any fun dn => !dn.complete }

/-- `xml_dump_files`. -/
def xmlDumpFiles (s : DumpInfo Node) : DumpInfo Node :=
  { s with
    file := s.file ++ s.fileQueue.flatMap fun (name, index) =>
      [.startTag 2 "File", .attr "id" [.file index], .attr "name" [.str name], .emptyTag] }

/-- The text before the first element of the dump. -/
def documentHead : List (SymFrag Node) :=
  [.prolog "<?xml version=\"1.0\"?>\n", .startTag 0 "GCC_XML"]
    ++ (match tu.gccxmlVersionFull with
        | some version => [.attr "version" [.str version]]
        | none => [])
    ++ [.attr "cvs_revision" [.str tu.xmlCVersion], .endStartTag]

/-- The requests for the start nodes and the text before the first element. -/
def startLog (starts : List Node) : List (Action Node) :=
  starts.map (.addNode · true) ++ (documentHead tu).map .emit

/-- The state of `do_xml_output` before the first `xml_dump`, when the nodes `starts` are requested. -/
def startDump (starts : List Node) : DumpInfo Node := ({} : DumpInfo Node).execAll tu (startLog tu starts)

/-- The first `xml_dump`. -/
def completePhase (starts : List Node) (fuel : Nat) : Option (DumpInfo Node) :=
  xmlDump tu fuel (startDump tu starts)

/-- The switch to the incomplete phase. -/
def startIncomplete (s : DumpInfo Node) : DumpInfo Node :=
  { queueIncompleteDumpNodes tu s with requireComplete := false }

/-- The second `xml_dump`. -/
def incompletePhase (starts : List Node) (fuel : Nat) : Option (DumpInfo Node) := do
  let s ← completePhase tu starts fuel
  xmlDump tu fuel (startIncomplete tu s)

/-- The end of `do_xml_output`. -/
def finishDump (s : DumpInfo Node) : DumpInfo Node := (xmlDumpFiles s).write (.endTag 0 "GCC_XML")

/-- **`do_xml_output`** with the requests `starts`, from the first of them to the last line of the document. -/
def doXmlOutput (starts : List Node) (fuel : Nat) : Option (DumpInfo Node) :=
  (incompletePhase tu starts fuel).map finishDump

/-- The start requests without `flag_xml_start`: the global namespace, and `std` because it is not always
    referenced. -/
def defaultStarts : List Node := tu.globalNamespace :: tu.stdNode.toList

end

end GccXml
