import GccXml.Lib.Interning
import GccXml.Xml.Locations

namespace GccXml

/-! # `Xml.FileTable` — file ids and `File` elements

`xml_queue_file` numbers the encoded file names in order of first use, and `xml_dump_files` prints the names it has
numbered when everything else is written. Counter, map and queue are three views of one table, so the ids in the
document are those of its `File` elements.

The table is given by the list of its keys, each once, in order: the counter is its length, the queue is the list with
the positions as numbers, and the map gives the position of a key. Queueing a name keeps this, for a list that grows by
the name if it is new. So after a run the keys are the names that were queued, without repetitions, and by `Locations`
these are those of the declarations whose locations were printed, escaped.

A reference is written after its file was queued, and positions stay, so the ids in the attributes are the positions of
the names at the end. The `File` elements have the positions as ids and the names as they were queued; decoding the
escapes gives the names of the declarations back. Together this is the agreement that the last theorem states. -/

open DumpInfo Interning

/-! ## Decoding -/

/-- Replace the references to the predefined entities. -/
def decodeEntities : List Char → List Char
  | '&' :: 'a' :: 'm' :: 'p' :: ';' :: rest => '&' :: decodeEntities rest
  | '&' :: 'l' :: 't' :: ';' :: rest => '<' :: decodeEntities rest
  | '&' :: 'g' :: 't' :: ';' :: rest => '>' :: decodeEntities rest
  | '&' :: 'a' :: 'p' :: 'o' :: 's' :: ';' :: rest => '\'' :: decodeEntities rest
  | '&' :: 'q' :: 'u' :: 'o' :: 't' :: ';' :: rest => '"' :: decodeEntities rest
  | c :: rest => c :: decodeEntities rest
  | [] => []

theorem decodeEntities_cons {c : Char} (hc : c ≠ '&') (rest : List Char) :
    decodeEntities (c :: rest) = c :: decodeEntities rest := by
  conv_lhs => unfold decodeEntities
  split <;> simp_all

theorem decodeEntities_xmlEscapeChar (c : Char) (rest : List Char) :
    decodeEntities (xmlEscapeChar c ++ rest) = c :: decodeEntities rest := by
  unfold xmlEscapeChar
  split
  case h_6 hamp _ _ _ _ => exact decodeEntities_cons hamp rest
  all_goals rfl

/-- **Decoding undoes `xml_escape_string`.** -/
theorem decodeEntities_xmlEscapeString (s : String) :
    decodeEntities (xmlEscapeString s).toList = s.toList := by
  have hchars : ∀ cs : List Char, decodeEntities (cs.flatMap xmlEscapeChar) = cs := by
    intro cs
    induction cs with
    | nil => rfl
    | cons c cs ih => rw [List.flatMap_cons, decodeEntities_xmlEscapeChar, ih]
  rw [xmlEscapeString, String.toList_ofList]
  exact hchars s.toList

theorem xmlEscapeString_injective : Function.Injective xmlEscapeString := by
  intro s t h
  have hdecode := decodeEntities_xmlEscapeString s
  rw [h, decodeEntities_xmlEscapeString] at hdecode
  exact String.toList_inj.mp hdecode.symm

/-! ## The table -/

section
variable {Node : Type} [DecidableEq Node] {tu : TranslationUnit Node}

/-- **The state holds the table of the keys `keys`**: the counter counts them, the queue has them in order with their
    numbers, and the map finds the number of each. -/
structure HoldsFiles (keys : List String) (s : DumpInfo Node) : Prop where
  counter : s.fileIndex = keys.length
  queue : s.fileQueue = keys.zipIdx
  map : ∀ f, s.fileNodes f = if f ∈ keys then some (keys.idxOf f) else none

namespace HoldsFiles

variable {keys names : List String} {s : DumpInfo Node}

omit [DecidableEq Node] in
theorem init : HoldsFiles [] ({} : DumpInfo Node) := ⟨rfl, rfl, fun _ => rfl⟩

omit [DecidableEq Node] in
/-- `xml_queue_file` looks up one more name. -/
theorem queueFile (h : HoldsFiles names.eraseDups s) (name : String) :
    HoldsFiles (names ++ [name]).eraseDups (s.queueFile name) := by
  have hmap := h.map name
  rw [eraseDups_concat]
  unfold DumpInfo.queueFile
  by_cases hname : name ∈ names
  · rw [if_pos (List.mem_eraseDups.mpr hname)] at hmap
    rw [if_pos hname, hmap]
    exact h
  · rw [if_neg fun hmem => hname (List.mem_eraseDups.mp hmem)] at hmap
    rw [if_neg hname, hmap]
    have hnew : name ∉ names.eraseDups := fun hmem => hname (List.mem_eraseDups.mp hmem)
    refine ⟨?_, ?_, fun f => ?_⟩
    · simp [h.counter]
    · simp [h.queue, h.counter, List.zipIdx_append]
    · show (if f = name then some s.fileIndex else s.fileNodes f) = _
      by_cases hf : f = name
      · subst hf
        simp [h.counter, List.idxOf_append, hnew]
      · have hidx : f ∈ names.eraseDups → (names.eraseDups ++ [name]).idxOf f = names.eraseDups.idxOf f :=
          List.idxOf_append_of_mem
        rw [if_neg hf, h.map f]
        by_cases hmem : f ∈ names.eraseDups
        · rw [if_pos hmem, if_pos (List.mem_append_left _ hmem), hidx hmem]
        · have hlater : f ∉ names.eraseDups ++ [name] := by simpa [hf] using hmem
          rw [if_neg hmem, if_neg hlater]

/-- Registering a node leaves the table alone. -/
theorem addNodeReal (h : HoldsFiles keys s) (n : Node) (c : Bool) : HoldsFiles keys (s.addNodeReal n c) := by
  by_cases hi : s.index n = 0
  · rw [addNodeReal_new s n c hi]
    exact ⟨h.counter, h.queue, h.map⟩
  · rw [addNodeReal_known s n c hi]
    exact ⟨h.counter, h.queue, h.map⟩

theorem register (h : HoldsFiles keys s) (log : List (Node × Bool)) : HoldsFiles keys (s.register log) := by
  induction log generalizing s with
  | nil => exact h
  | cons r log ih => exact ih (h.addNodeReal r.1 r.2)

/-- A printing function looks up the names that it queues. -/
theorem execAll (h : HoldsFiles names.eraseDups s) (log : List (Action Node)) :
    HoldsFiles (names ++ log.filterMap Action.queued?).eraseDups (s.execAll tu log) := by
  induction log generalizing s names with
  | nil => simpa using h
  | cons a log ih =>
      rw [execAll_cons]
      cases a with
      | emit frag => exact ih ⟨h.counter, h.queue, h.map⟩
      | addNode n c => exact ih (h.register _)
      | queueFile name =>
          have hnext := ih (h.queueFile name)
          rw [List.append_assoc] at hnext
          exact hnext

end HoldsFiles

variable (tu) in
/-- The files of the declarations whose locations were printed for the nodes `dumped`, in the order of the text. -/
def printedFiles (dumped : List (Node × Bool)) : List String := dumped.flatMap fun d => locatedFiles tu d.1

/-- The table holds the encoded names of the files printed so far. -/
def FilesHeld (tu : TranslationUnit Node) (s : DumpInfo Node) : Prop :=
  HoldsFiles ((printedFiles tu s.dumped).map xmlEscapeString).eraseDups s

theorem FilesHeld.start (starts : List Node) : FilesHeld tu (startDump tu starts) := by
  have hlog : (startLog tu starts).filterMap Action.queued? = [] := by
    simp [startLog, List.filterMap_append, List.filterMap_map, Function.comp_def, Action.queued?]
  have hdumped : (startDump tu starts).dumped = [] := dumped_execAll _ _
  have hinit : HoldsFiles ([] : List String).eraseDups ({} : DumpInfo Node) := .init
  have hstart := @HoldsFiles.execAll _ _ tu _ _ hinit (startLog tu starts)
  rw [hlog] at hstart
  unfold FilesHeld
  rw [hdumped]
  exact hstart

theorem FilesHeld.round {s : DumpInfo Node} (h : FilesHeld tu s) {n : Node} {rest : List Node} :
    FilesHeld tu (xmlDumpNode tu { s with queue := rest } n) := by
  have hqueued : (xmlDumpTreeNode tu n (s.complete n)).log.filterMap Action.queued? =
      (locatedFiles tu n).map xmlEscapeString := (xmlDumpTreeNode_locates tu n (s.complete n)).queued
  have hpop : HoldsFiles ((printedFiles tu s.dumped).map xmlEscapeString).eraseDups
      { s with queue := rest, dumped := s.dumped ++ [(n, s.complete n)] } := ⟨h.counter, h.queue, h.map⟩
  have hround := @HoldsFiles.execAll _ _ tu _ _ hpop (xmlDumpTreeNode tu n (s.complete n)).log
  have hfiles : printedFiles tu (s.dumped ++ [(n, s.complete n)]) = printedFiles tu s.dumped ++ locatedFiles tu n := by
    simp [printedFiles]
  unfold FilesHeld
  rw [dumped_xmlDumpNode]
  show HoldsFiles ((printedFiles tu (s.dumped ++ [(n, s.complete n)])).map xmlEscapeString).eraseDups _
  rw [hfiles, List.map_append, ← hqueued]
  exact hround

variable {starts : List Node}

/-- **The table of a whole run** holds the files of the printed nodes. -/
theorem PhasesEnd.filesHeld {s₁ s₂ : DumpInfo Node} (h : PhasesEnd tu starts s₁ s₂) : FilesHeld tu s₂ := by
  have hround : ∀ (s : DumpInfo Node) n rest, FilesHeld tu s → s.queue = n :: rest →
      FilesHeld tu (xmlDumpNode tu { s with queue := rest } n) := fun s n rest hs _ => hs.round
  have hfirst := (xmlDump_induct hround (FilesHeld.start starts) h.first).1
  have hmid : FilesHeld tu (startIncomplete tu s₁) := ⟨hfirst.counter, hfirst.queue, hfirst.map⟩
  exact (xmlDump_induct hround hmid h.second).1

/-! ## The document -/

omit [DecidableEq Node] in
/-- The files that a fragment refers to, with the numbers of the state `s`. -/
theorem fileRefs_fillFrag (s : DumpInfo Node) (name : String) (frags : List (SymFrag Node)) :
    fileRefs name (frags.map s.fillFrag) = (fileRefs name frags).map s.fileIndexOf := by
  have hpiece : ∀ x : SymPiece Node,
      (x.fill s.indexOf s.fileIndexOf).fileRef? = x.fileRef?.map s.fileIndexOf := by
    intro x
    cases x <;> rfl
  have hone : ∀ frag : SymFrag Node, (s.fillFrag frag).fileRefs name = (frag.fileRefs name).map s.fileIndexOf := by
    intro frag
    cases frag with
    | attr label value =>
        show (if label = name then (value.map (Piece.fill s.indexOf s.fileIndexOf)).filterMap Piece.fileRef? else []) =
          (if label = name then value.filterMap Piece.fileRef? else []).map s.fileIndexOf
        split
        · rw [List.filterMap_map, List.map_filterMap]
          exact List.filterMap_congr fun x _ => hpiece x
        · rfl
    | _ => rfl
  unfold fileRefs
  rw [List.flatMap_map, List.map_flatMap]
  simp only [hone]

omit [DecidableEq Node] in
/-- Plain text refers to no file. -/
theorem fileRefs_of_text {name : String} {frags : List (SymFrag Node)}
    (h : ∀ frag ∈ frags, ∀ x ∈ frag.pieces, x.isText = true) : fileRefs name frags = [] := by
  rw [fileRefs, List.flatMap_eq_nil_iff]
  intro frag hfrag
  have htext := h frag hfrag
  cases frag with
  | attr label value =>
      have hnone : value.filterMap Piece.fileRef? = [] :=
        List.filterMap_eq_nil_iff.mpr fun x hx => Piece.fileRef?_of_isText (htext x hx)
      simp [Frag.fileRefs, hnone]
  | _ => rfl

/-- **The file ids in the attribute `name`** are the numbers of the printed files. -/
theorem PhasesEnd.fileRefs_eq {s₁ s₂ : DumpInfo Node} (h : PhasesEnd tu starts s₁ s₂) {name : String}
    (hname : name ∈ ["location", "file"]) :
    fileRefs name (finishDump s₂).file = numbers ((printedFiles tu s₂.dumped).map xmlEscapeString) := by
  have hhead : fileRefs name ((documentHead tu).map s₂.fillFrag) = [] := by
    rw [fileRefs_fillFrag, fileRefs_of_text documentHead_text, List.map_nil]
  have hnodes : fileRefs name (s₂.dumped.flatMap fun d => (entryFrags (nodeEntry tu d.1 d.2)).map s₂.fillFrag) =
      ((printedFiles tu s₂.dumped).map xmlEscapeString).map s₂.fileIndexOf := by
    rw [fileRefs_flatMap, printedFiles, List.map_flatMap, List.map_flatMap]
    refine List.flatMap_congr fun d _ => ?_
    rw [fileRefs_fillFrag, ← fragsOf_xmlDumpTreeNode, (xmlDumpTreeNode_locates tu d.1 d.2).shown name hname]
  have hfiles : fileRefs name (s₂.fileQueue.flatMap fun f =>
      [.startTag 2 "File", .attr "id" [.file f.2], .attr "name" [.str f.1], .emptyTag] : List (OutFrag Node)) = [] := by
    rw [fileRefs_flatMap, List.flatMap_eq_nil_iff]
    intro f _
    simp only [List.mem_cons, List.not_mem_nil, or_false] at hname
    rcases hname with rfl | rfl <;> rfl
  have hnumber : ∀ f ∈ (printedFiles tu s₂.dumped).map xmlEscapeString, s₂.fileIndexOf f =
      ((printedFiles tu s₂.dumped).map xmlEscapeString).eraseDups.idxOf f := by
    intro f hf
    rw [fileIndexOf, h.filesHeld.map f, if_pos (List.mem_eraseDups.mpr hf), Option.getD_some]
  rw [h.document]
  simp only [fileRefs_append, hhead, hnodes, hfiles]
  rw [List.nil_append, List.append_nil, List.map_congr_left hnumber]
  exact List.append_nil _

/-- The `File` elements of a document. -/
def fileElements (doc : List (OutFrag Node)) : List (Element Node Nat Nat) :=
  (elements doc).filter fun e => e.tag = "File"

/-- No printed node has a `File` element. -/
theorem nodeElements_tag_ne_file {d : Node × Bool} {e : SymElement Node} (he : e ∈ nodeElements tu d) : e.tag ≠ "File" := by
  obtain ⟨entry, hentry, he⟩ := List.mem_flatMap.mp he
  have hentry : nodeEntry tu d.1 d.2 = some entry := Option.mem_toList.mp hentry
  have hshape := nodeEntry_shape tu hentry
  rcases List.mem_cons.mp he with rfl | he
  · -- the tag of the node itself
    have hmain : ∀ e, mainVariantEntry tu d.1 d.2 = some e → e.element.tag ≠ "File" := by
      intro e he
      unfold mainVariantEntry at he
      split at he <;> cases he
      case h_1 | h_2 | h_3 =>
        intro (heq : recordTag tu d.1 = "File")
        exact absurd (heq ▸ recordTag_mem_recordTags tu d.1) (by decide)
      all_goals simp
    unfold nodeEntry at hentry
    split at hentry
    case h_1 =>
      cases hentry
      split <;> simp
    case h_3 =>
      cases hentry
      intro (heq : (functionShape tu d.1).tag = "File")
      exact absurd (heq ▸ functionShape_tag_mem_functionTags tu d.1) (by decide)
    case h_2 | h_4 | h_5 | h_22 =>
      cases hentry
      simp
    all_goals
      split at hentry
      · exact hmain entry hentry
      · unfold variantEntry at hentry
        split at hentry <;> cases hentry
        simp
  · -- a child is an argument, an ellipsis, a base or an enumerator
    obtain ⟨child, hchild, rfl⟩ := List.mem_map.mp he
    have hchildTags : ∀ tag ∈ topLevelTags, "File" ∉ childTags tag := by decide
    intro heq
    exact hchildTags _ hshape.tag (heq ▸ (hshape.children child hchild).2)

/-- **The `File` elements** are those of the queue of files. -/
theorem PhasesEnd.fileElements_eq {s₁ s₂ : DumpInfo Node} (h : PhasesEnd tu starts s₁ s₂) :
    fileElements (finishDump s₂).file = s₂.fileQueue.map fileElement := by
  have hnodes : (s₂.dumped.flatMap fun d => (nodeElements tu d).map s₂.fillElement).filter (fun e => e.tag = "File") = [] := by
    rw [List.filter_eq_nil_iff]
    intro e he
    obtain ⟨d, -, he⟩ := List.mem_flatMap.mp he
    obtain ⟨e', he', rfl⟩ := List.mem_map.mp he
    have htag : (s₂.fillElement e').tag ≠ "File" := nodeElements_tag_ne_file he'
    simp [htag]
  have hfiles : (s₂.fileQueue.map (@fileElement Node)).filter (fun e => e.tag = "File") =
      s₂.fileQueue.map fileElement := by
    rw [List.filter_eq_self]
    intro e he
    obtain ⟨f, -, rfl⟩ := List.mem_map.mp he
    rfl
  have hroot : (rootElement tu).tag ≠ "File" := by simp [rootElement]
  rw [fileElements, h.elements, List.filter_append, hfiles, List.filter_cons_of_neg (by simp [hroot]), hnodes]
  rfl

/-! ## Agreement -/

/-- **The file ids of a document agree with its `File` elements.** `files` are the `DECL_SOURCE_FILE` strings of the
    declarations whose locations are printed, in the order of the text. -/
structure FileTableAgrees (files : List String) (doc : List (OutFrag Node)) : Prop where
  /-- Each location has an id, and `location` and `file` have the same. -/
  printed : (fileRefs "file" doc).length = files.length
  location : fileRefs "location" doc = fileRefs "file" doc
  /-- The ids are 0, 1, 2, … in order of first use, and the `File` elements have each of them once, in this order. -/
  firstUses : (fileRefs "file" doc).eraseDups = List.range (fileElements doc).length
  elementIds : (fileElements doc).map (·.attr? "id") =
    (List.range (fileElements doc).length).map fun i => some [.file i]
  /-- Two declarations get the same id exactly when their files are the same. -/
  sameId : ∀ p ∈ files.zip (fileRefs "file" doc), ∀ q ∈ files.zip (fileRefs "file" doc), p.2 = q.2 ↔ p.1 = q.1
  /-- Decoding the name of the `File` element with the id of a declaration gives back the file of the declaration. -/
  decodes : ∀ p ∈ files.zip (fileRefs "file" doc), ∀ e ∈ fileElements doc, e.attr? "id" = some [.file p.2] →
    ∃ name, e.attr? "name" = some [.str name] ∧ decodeEntities name.toList = p.1.toList

theorem PhasesEnd.fileTableAgrees {s₁ s₂ : DumpInfo Node} (h : PhasesEnd tu starts s₁ s₂) :
    FileTableAgrees (printedFiles tu s₂.dumped) (finishDump s₂).file := by
  let files := printedFiles tu s₂.dumped
  let keys := files.map xmlEscapeString
  have hrefs : ∀ name ∈ ["location", "file"], fileRefs name (finishDump s₂).file = numbers keys :=
    fun name hname => h.fileRefs_eq hname
  have hfile := hrefs "file" (by decide)
  have helements : fileElements (finishDump s₂).file = keys.eraseDups.zipIdx.map fileElement := by
    rw [h.fileElements_eq, h.filesHeld.queue]
  have hlength : (fileElements (finishDump s₂).file).length = keys.eraseDups.length := by
    rw [helements, List.length_map, List.length_zipIdx]
  have hzip : ∀ p ∈ files.zip (numbers keys), (xmlEscapeString p.1, p.2) ∈ keys.zip (numbers keys) := by
    intro p hp
    rw [List.zip_map_left]
    exact List.mem_map.mpr ⟨p, hp, rfl⟩
  have hid : ∀ f : String × Nat, (fileElement f : Element Node Nat Nat).attr? "id" = some [.file f.2] := fun f =>
    Element.attr?_of_head rfl
  refine ⟨?_, ?_, ?_, ?_, fun p hp q hq => ?_, fun p hp e he heid => ?_⟩
  · rw [hfile, numbers, List.length_map, List.length_map]
  · rw [hrefs "location" (by decide), hfile]
  · rw [hfile, hlength, eraseDups_numbers]
  · rw [hlength, helements, List.map_map, List.range_eq_range', ← List.zipIdx_map_snd 0 keys.eraseDups, List.map_map]
    refine List.map_congr_left fun f _ => hid f
  · rw [hfile] at hp hq
    rw [zip_numbers (hzip p hp) (hzip q hq)]
    exact xmlEscapeString_injective.eq_iff
  · rw [hfile] at hp
    rw [helements] at he
    obtain ⟨f, hf, rfl⟩ := List.mem_map.mp he
    have hnumber : f.2 = p.2 := by
      rw [hid f] at heid
      simpa using heid
    have hname : (fileElement f : Element Node Nat Nat).attr? "name" = some [.str f.1] := by
      simp [Element.attr?, fileElement]
    -- the number of a file is the position of its first occurrence, so it leads back to the name
    have hkey : f.1 = xmlEscapeString p.1 := by
      have hmem : xmlEscapeString p.1 ∈ keys.eraseDups :=
        List.mem_eraseDups.mpr (List.mem_map_of_mem (List.of_mem_zip hp).1)
      have hp2 : p.2 = keys.eraseDups.idxOf (xmlEscapeString p.1) := snd_of_mem_zip_numbers (hzip p hp)
      have hget : keys.eraseDups[f.2]? = some f.1 := List.mk_mem_zipIdx_iff_getElem?.mp hf
      rw [hnumber, hp2, List.getElem?_eq_getElem (List.idxOf_lt_length_of_mem hmem), List.getElem_idxOf] at hget
      exact (Option.some.inj hget).symm
    exact ⟨f.1, hname, by rw [hkey, decodeEntities_xmlEscapeString]⟩

/-- **File table agreement.** Every run of `do_xml_output` ends, and in its document the ids of the locations agree
    with the `File` elements. -/
theorem document_fileTableAgrees (tu : TranslationUnit Node) (starts : List Node) :
    ∃ s, (∀ fuel, 2 * tu.nodes.length ≤ fuel → doXmlOutput tu starts fuel = some s) ∧
      FileTableAgrees (printedFiles tu s.dumped) s.file := by
  obtain ⟨s₁, s₂, h, -⟩ := exists_phasesEnd tu starts
  exact ⟨finishDump s₂, fun fuel hf => (h.doXmlOutput hf).2, h.fileTableAgrees⟩

end

end GccXml
