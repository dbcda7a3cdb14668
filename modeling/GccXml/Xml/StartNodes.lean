import GccXml.Lib.Pieces
import GccXml.Xml.AddNode
import Mathlib.Data.List.TakeWhile

namespace GccXml

variable {Node : Type} {tu : TranslationUnit Node}

/-! # `Xml.StartNodes` — the nodes that `-fxml-start` names

`xml_add_start_nodes` splits the list at its commas, and `xml_lookup_start_node` looks the parts of an entry up, each
in what was found for the one before. The lookup of a name is a parameter: `lookup_qualified_name` gives it a scope and
turns what is not found into `error_mark_node`.

Three things are separated. Splitting is about characters: the loops over `,` and `:` are compared with splitting a
list, and an entry is regular if its parts are what is between the colons, none of them empty. Looking up is about the
scope: `resolveStart` says what an entry names, and the code finds this as long as every part but the last names
a namespace. A class is found as its `TYPE_DECL`, which is no scope for `lookup_qualified_name`, and the answer for the
next part is `error_mark_node`. Requesting is about what was found: a declaration is requested, the candidates in a
`TREE_LIST` are requested one by one, and `error_mark_node` is requested like any other node.

The condition of the theorem has one part for each of these, and the unit at the end meets it. -/

/-! ## The lookup of a name -/

/-- What a lookup finds: a declaration, or the `TREE_LIST` of an ambiguous name with its `TREE_VALUE`s. -/
inductive LookedUp (Node : Type)
  | decl (n : Node)
  | ambiguous (list : Node) (values : List Node)
  deriving DecidableEq

/-- The node of what was found. -/
def LookedUp.node : LookedUp Node → Node
  | decl n => n
  | ambiguous list _ => list

/-- The two lookups that `lookup_qualified_name` chooses from. -/
structure NameLookup (Node : Type) where
  errorMarkNode : Node
  /-- `qualified_lookup_using_namespace` and `select_decl`. -/
  namespaceLookup : Node → List Char → Option (LookedUp Node)
  /-- `lookup_member`. -/
  lookupMember : Node → List Char → Option (LookedUp Node)
  /-- The declarations in a `TREE_LIST` that is itself a candidate of an ambiguous name. -/
  innerCandidates : Node → List Node

namespace NameLookup

variable (tu) (L : NameLookup Node)

/-- What is found for `name` in `scope`, which has to be a namespace or a class type. -/
def lookup (scope : Node) (name : List Char) : Option (LookedUp Node) :=
  match tu.treeCode scope with
  | .namespaceDecl => L.namespaceLookup scope name
  | .recordType | .unionType => L.lookupMember scope name
  | _ => none

/-- `lookup_qualified_name`. -/
def lookupQualifiedName (scope : Node) (name : List Char) : LookedUp Node :=
  (L.lookup tu scope name).getD (.decl L.errorMarkNode)

end NameLookup

/-! ## The functions of `xml.c` -/

section

variable (tu) (L : NameLookup Node)

/-- Some characters are consumed before the next qualifier. -/
theorem length_afterColons (qualifiedName : List Char)
    (h : (qualifiedName.dropWhile (· ≠ ':')).dropWhile (· = ':') ≠ []) :
    ((qualifiedName.dropWhile (· ≠ ':')).dropWhile (· = ':')).length < qualifiedName.length := by
  cases hcolon : qualifiedName.dropWhile (· ≠ ':') with
  | nil =>
      rw [hcolon] at h
      exact absurd rfl h
  | cons c rest =>
      have hc : c = ':' := by
        have hnot := List.head?_dropWhile_not (fun c => decide (c ≠ ':')) qualifiedName
        rw [hcolon] at hnot
        simpa using hnot
      have hsuffix : c :: rest <:+ qualifiedName := hcolon ▸ List.dropWhile_suffix _
      have hrest : rest.dropWhile (· = ':') <:+ rest := List.dropWhile_suffix _
      have hlen := hsuffix.length_le
      have hlen' := hrest.length_le
      rw [List.length_cons] at hlen
      rw [hc, List.dropWhile_cons_of_pos (by simp)]
      omega

/-- `xml_lookup_start_node`. -/
def xmlLookupStartNode (scope : Node) (qualifiedName : List Char) : LookedUp Node :=
  let node := L.lookupQualifiedName tu scope (qualifiedName.takeWhile (· ≠ ':'))
  let next := (qualifiedName.dropWhile (· ≠ ':')).dropWhile (· = ':')
  if _h : next = [] then node else xmlLookupStartNode node.node next
termination_by qualifiedName.length
decreasing_by
  exact length_afterColons qualifiedName _h

/-- `xml_add_start_node`: the requests, each for a complete node. -/
def xmlAddStartNode : LookedUp Node → List (Node × Bool)
  | .decl n => [(n, true)]
  | .ambiguous _ values => values.map (·, true)

/-- The loop of `xml_add_start_nodes`, with the characters of the current entry. -/
def xmlAddStartNodesLoop (curStart : List Char) : List Char → List (Node × Bool)
  | [] => xmlAddStartNode (xmlLookupStartNode tu L tu.globalNamespace curStart)
  | c :: rest =>
      if c = ',' then
        xmlAddStartNode (xmlLookupStartNode tu L tu.globalNamespace curStart) ++ xmlAddStartNodesLoop [] rest
      else xmlAddStartNodesLoop (curStart ++ [c]) rest

/-- `xml_add_start_nodes`. -/
def xmlAddStartNodes (inStartList : List Char) : List (Node × Bool) := xmlAddStartNodesLoop tu L [] inStartList

/-! ## What an entry names -/

/-- The parts of an entry between its `::`. -/
def startComponents : List Char → List (List Char)
  | [] => [[]]
  | ':' :: ':' :: rest => [] :: startComponents rest
  | c :: rest => (startComponents rest).modifyHead (c :: ·)

/-- The scope that a declaration is for the next part: a namespace, or the class type that it declares. -/
def declaredScope (n : Node) : Option Node :=
  match tu.treeCode n with
  | .namespaceDecl => some n
  | .typeDecl =>
      if tu.treeCode (tu.treeType n) = .recordType ∨ tu.treeCode (tu.treeType n) = .unionType then some (tu.treeType n)
      else none
  | _ => none

/-- **What an entry names**: each part is looked up in the namespace or class that was found for the one before. -/
def resolveStart (scope : Node) : List (List Char) → Option (LookedUp Node)
  | [] => none
  | [name] => L.lookup tu scope name
  | name :: rest =>
      match L.lookup tu scope name with
      | some (.decl n) => (declaredScope tu n).bind fun scope => resolveStart scope rest
      | _ => none

/-- The requests for what an entry names: one for a declaration, one for each candidate of an ambiguous name. -/
def candidateRequests : LookedUp Node → List (Node × Bool)
  | .decl n => [(n, true)]
  | .ambiguous _ values =>
      (values.flatMap fun v => if tu.treeCode v = .treeList then L.innerCandidates v else [v]).map (·, true)

/-- The requests that an entry stands for; an entry that names nothing stands for none. -/
def entryRequests (entry : List Char) : List (Node × Bool) :=
  match resolveStart tu L tu.globalNamespace (startComponents entry) with
  | some found => candidateRequests tu L found
  | none => []

/-- **The list is resolved entry by entry.** -/
def StartListResolved (inStartList : List Char) : Prop :=
  xmlAddStartNodes tu L inStartList = (inStartList.splitOn ',').flatMap (entryRequests tu L)

/-- What an entry names when every part but the last names a namespace. -/
def resolveInNamespaces (scope : Node) : List (List Char) → Option (LookedUp Node)
  | [] => none
  | [name] => L.lookup tu scope name
  | name :: rest =>
      match L.lookup tu scope name with
      | some (.decl n) => if tu.treeCode n = .namespaceDecl then resolveInNamespaces n rest else none
      | _ => none

/-- An entry that is requested as it should be: its parts name namespaces and at last something, and if that is
ambiguous, no candidate is a list of candidates. -/
def EntryFound (entry : List Char) : Prop :=
  ∃ found, resolveInNamespaces tu L tu.globalNamespace (startComponents entry) = some found ∧
    ∀ list values, found = .ambiguous list values → ∀ v ∈ values, tu.treeCode v ≠ .treeList

/-- A part that can be the name of something. -/
def RegularPart (name : List Char) : Prop := name ≠ [] ∧ ':' ∉ name

/-- A node that stands for no declaration. -/
def Undeclared (n : Node) : Prop := n = L.errorMarkNode ∨ tu.treeCode n = .treeList

/-- The node is neither a namespace nor a class type, so that nothing is looked up in it. -/
def NoScope (n : Node) : Prop := ∀ name, L.lookup tu n name = none

/-- **What the lookups are known for.** A binding is a declaration, which no class type is, or the `TREE_LIST` of an
ambiguous name, made of declarations and of such lists; `error_mark_node` is nothing of all this, and no name is empty
or has a colon in it. -/
structure NameLookup.Lawful : Prop where
  global : tu.treeCode tu.globalNamespace = .namespaceDecl
  errorMark : NoScope tu L L.errorMarkNode
  name : ∀ {scope name found}, L.lookup tu scope name = some found → RegularPart name
  decl : ∀ {scope name n}, L.lookup tu scope name = some (.decl n) →
    ¬ Undeclared tu L n ∧ (tu.treeCode n ≠ .namespaceDecl → NoScope tu L n)
  ambiguous : ∀ {scope name list values}, L.lookup tu scope name = some (.ambiguous list values) →
    tu.treeCode list = .treeList ∧ values ≠ [] ∧ (∀ v ∈ values, v ≠ L.errorMarkNode) ∧
      ∀ v ∈ values, ∀ candidate ∈ L.innerCandidates v, ¬ Undeclared tu L candidate

end

/-! ## The loop over the entries -/

section

variable {L : NameLookup Node}

theorem modifyHead_nil_append (l : List (List Char)) : l.modifyHead ([] ++ ·) = l := by
  cases l <;> rfl

/-- The loop adds the entries one after the other; the first of them has the characters read so far before it. -/
theorem xmlAddStartNodesLoop_eq (curStart rest : List Char) :
    xmlAddStartNodesLoop tu L curStart rest =
      ((rest.splitOn ',').modifyHead (curStart ++ ·)).flatMap fun entry =>
        xmlAddStartNode (xmlLookupStartNode tu L tu.globalNamespace entry) := by
  induction rest generalizing curStart with
  | nil => simp [xmlAddStartNodesLoop]
  | cons c rest ih =>
      rw [xmlAddStartNodesLoop, List.splitOn_cons_eq_if_modifyHead]
      by_cases hcomma : c = ','
      · rw [if_pos hcomma, if_pos (beq_iff_eq.mpr hcomma), ih, modifyHead_nil_append, List.modifyHead_cons,
          List.flatMap_cons, List.append_nil]
      · rw [if_neg hcomma, if_neg (beq_iff_eq.not.mpr hcomma), ih, List.modifyHead_modifyHead]
        simp [Function.comp_def]

theorem xmlAddStartNodes_eq (inStartList : List Char) :
    xmlAddStartNodes tu L inStartList = (inStartList.splitOn ',').flatMap fun entry =>
      xmlAddStartNode (xmlLookupStartNode tu L tu.globalNamespace entry) := by
  rw [xmlAddStartNodes, xmlAddStartNodesLoop_eq, modifyHead_nil_append]

/-! ## The parts of an entry -/

theorem startComponents_append {name : List Char} (hname : ':' ∉ name) (rest : List Char) :
    startComponents (name ++ rest) = (startComponents rest).modifyHead (name ++ ·) := by
  induction name with
  | nil => exact (modifyHead_nil_append _).symm
  | cons c name ih =>
      rw [List.mem_cons, not_or] at hname
      have hstep : startComponents (c :: (name ++ rest)) = (startComponents (name ++ rest)).modifyHead (c :: ·) := by
        rw [startComponents.eq_3 _ _ fun _ h => absurd h.symm hname.1]
      rw [List.cons_append, hstep, ih hname.2, List.modifyHead_modifyHead]
      rfl

theorem startComponents_ne_nil (entry : List Char) : startComponents entry ≠ [] := by
  fun_induction startComponents entry with
  | case1 => simp
  | case2 => simp
  | case3 c rest _ ih => simpa using ih

/-- A colon is in the first part, or it is followed by another one and the first part ends before it. -/
theorem startComponents_colon (rest : List Char) :
    (∃ part parts, startComponents (':' :: rest) = (':' :: part) :: parts) ∨
      ∃ after, rest = ':' :: after ∧ startComponents (':' :: rest) = [] :: startComponents after := by
  by_cases hsecond : ∃ after, rest = ':' :: after
  · obtain ⟨after, rfl⟩ := hsecond
    exact .inr ⟨after, rfl, rfl⟩
  · left
    obtain ⟨part, parts, hparts⟩ := List.exists_cons_of_ne_nil (startComponents_ne_nil rest)
    refine ⟨part, parts, ?_⟩
    rw [startComponents.eq_3 _ _ fun after _ h => hsecond ⟨after, h⟩, hparts]
    rfl

/-- **The first part of an entry of regular parts.** It has no colon in it, and after it the entry ends or `::` and
the next part follow. -/
theorem regular_startComponents {entry : List Char} (h : ∀ part ∈ startComponents entry, RegularPart part) :
    RegularPart entry ∧ startComponents entry = [entry] ∨
      ∃ name c rest, entry = name ++ ':' :: ':' :: c :: rest ∧ RegularPart name ∧ c ≠ ':' ∧
        startComponents entry = name :: startComponents (c :: rest) := by
  obtain ⟨name, after, hentry, hname, hafter⟩ : ∃ name after, entry = name ++ after ∧ ':' ∉ name ∧
      (after = [] ∨ ∃ rest, after = ':' :: rest) := by
    refine ⟨entry.takeWhile (· ≠ ':'), entry.dropWhile (· ≠ ':'), (List.takeWhile_append_dropWhile).symm, ?_, ?_⟩
    · intro hmem
      simpa using List.mem_takeWhile_imp hmem
    · cases hdrop : entry.dropWhile (· ≠ ':') with
      | nil => exact .inl rfl
      | cons c rest =>
          have hnot := List.head?_dropWhile_not (fun c => decide (c ≠ ':')) entry
          rw [hdrop] at hnot
          exact .inr ⟨rest, by simpa using hnot⟩
  subst hentry
  rw [startComponents_append hname] at h ⊢
  obtain rfl | ⟨rest, rfl⟩ := hafter
  · left
    simpa [startComponents] using h
  · right
    obtain ⟨part, parts, hparts⟩ | ⟨after, rfl, hparts⟩ := startComponents_colon rest
    · rw [hparts, List.modifyHead_cons, List.forall_mem_cons] at h
      exact absurd (by simp) h.1.2
    · rw [hparts, List.modifyHead_cons, List.append_nil, List.forall_mem_cons] at h
      rw [hparts, List.modifyHead_cons, List.append_nil]
      -- The second part is not empty, and a third colon would be in it or end it.
      cases after with
      | nil => exact absurd rfl (h.2 [] (by simp [startComponents])).1
      | cons c rest =>
          refine ⟨name, c, rest, rfl, h.1, ?_, rfl⟩
          rintro rfl
          obtain ⟨part, parts, hparts⟩ | ⟨_, -, hparts⟩ := startComponents_colon rest
          · exact (h.2 (':' :: part) (by simp [hparts])).2 List.mem_cons_self
          · exact (h.2 [] (by simp [hparts])).1 rfl

/-! ## The lookups -/

theorem xmlLookupStartNode_name {name : List Char} (hname : ':' ∉ name) (scope : Node) :
    xmlLookupStartNode tu L scope name = L.lookupQualifiedName tu scope name := by
  have hall : ∀ c ∈ name, decide (c ≠ ':') = true := fun c hc => decide_eq_true fun h => hname (h ▸ hc)
  rw [xmlLookupStartNode, List.takeWhile_eq_self_iff.mpr hall, List.dropWhile_eq_nil_iff.mpr hall]
  rfl

theorem xmlLookupStartNode_qualified {name : List Char} (hname : ':' ∉ name) {c : Char} (hc : c ≠ ':')
    (rest : List Char) (scope : Node) :
    xmlLookupStartNode tu L scope (name ++ ':' :: ':' :: c :: rest) =
      xmlLookupStartNode tu L (L.lookupQualifiedName tu scope name).node (c :: rest) := by
  have hall : ∀ c ∈ name, decide (c ≠ ':') = true := fun c hc => decide_eq_true fun h => hname (h ▸ hc)
  have htake : (name ++ ':' :: ':' :: c :: rest).takeWhile (· ≠ ':') = name := by
    rw [List.takeWhile_append_of_pos hall]
    simp
  have hdrop : ((name ++ ':' :: ':' :: c :: rest).dropWhile (· ≠ ':')).dropWhile (· = ':') = c :: rest := by
    rw [List.dropWhile_append_of_pos hall]
    simp [hc]
  rw [xmlLookupStartNode, htake, hdrop]
  rfl

theorem lookupQualifiedName_noScope {scope : Node} (hscope : NoScope tu L scope) (name : List Char) :
    L.lookupQualifiedName tu scope name = .decl L.errorMarkNode := by
  rw [NameLookup.lookupQualifiedName, hscope name]
  rfl

theorem noScope_treeList {list : Node} (hlist : tu.treeCode list = .treeList) : NoScope tu L list := by
  intro name
  simp only [NameLookup.lookup, hlist]

/-- Where nothing can be looked up, nothing is found, and neither is in what was not found. -/
theorem xmlLookupStartNode_noScope (hlawful : L.Lawful tu) {scope : Node} (hscope : NoScope tu L scope)
    (qualifiedName : List Char) : xmlLookupStartNode tu L scope qualifiedName = .decl L.errorMarkNode := by
  induction hlen : qualifiedName.length using Nat.strongRecOn generalizing scope qualifiedName with
  | ind n ih =>
      rw [xmlLookupStartNode, lookupQualifiedName_noScope hscope]
      split
      · rfl
      · next hnext => exact ih _ (hlen ▸ length_afterColons qualifiedName hnext) hlawful.errorMark _ rfl

/-- The result is always that of some lookup. -/
theorem xmlLookupStartNode_isLookup (scope : Node) (qualifiedName : List Char) :
    ∃ scope' name, xmlLookupStartNode tu L scope qualifiedName = L.lookupQualifiedName tu scope' name := by
  induction scope, qualifiedName using xmlLookupStartNode.induct tu L with
  | case1 scope qualifiedName next hnext =>
      rw [xmlLookupStartNode, dif_pos hnext]
      exact ⟨scope, _, rfl⟩
  | case2 scope qualifiedName node next hnext ih =>
      rw [xmlLookupStartNode, dif_neg hnext]
      exact ih

/-- **What the code finds for an entry of regular parts**: what its parts name, if all but the last name namespaces,
and `error_mark_node` otherwise. -/
theorem xmlLookupStartNode_eq (hlawful : L.Lawful tu) {entry : List Char} {scope : Node}
    (hregular : ∀ part ∈ startComponents entry, RegularPart part) :
    xmlLookupStartNode tu L scope entry =
      (resolveInNamespaces tu L scope (startComponents entry)).getD (.decl L.errorMarkNode) := by
  induction hlen : entry.length using Nat.strongRecOn generalizing entry scope with
  | ind n ih =>
      obtain ⟨hentry, hparts⟩ | ⟨name, c, rest, rfl, hname, hc, hparts⟩ := regular_startComponents hregular
      · rw [hparts, xmlLookupStartNode_name hentry.2]
        rfl
      · have hrest : ∀ part ∈ startComponents (c :: rest), RegularPart part := by
          rw [hparts, List.forall_mem_cons] at hregular
          exact hregular.2
        rw [hparts, resolveInNamespaces.eq_3 _ _ _ _ _ (startComponents_ne_nil _),
          xmlLookupStartNode_qualified hname.2 hc, NameLookup.lookupQualifiedName]
        cases hfound : L.lookup tu scope name with
        | none => exact xmlLookupStartNode_noScope hlawful hlawful.errorMark _
        | some found =>
            cases found with
            | decl m =>
                by_cases hnamespace : tu.treeCode m = .namespaceDecl
                · simp only [hnamespace, if_true]
                  refine ih (c :: rest).length ?_ hrest rfl
                  simp only [← hlen, List.length_append, List.length_cons]
                  omega
                · simp only [hnamespace, if_false]
                  exact xmlLookupStartNode_noScope hlawful ((hlawful.decl hfound).2 hnamespace) _
            | ambiguous list values =>
                exact xmlLookupStartNode_noScope hlawful (noScope_treeList (hlawful.ambiguous hfound).1) _

/-! ## What is resolved -/

theorem regular_of_resolveInNamespaces (hlawful : L.Lawful tu) {scope : Node} {parts : List (List Char)}
    {found : LookedUp Node} (h : resolveInNamespaces tu L scope parts = some found) :
    ∀ part ∈ parts, RegularPart part := by
  fun_induction resolveInNamespaces tu L scope parts with
  | case1 => cases h
  | case2 scope name => simpa using hlawful.name h
  | case3 scope name rest _ n hn _ ih => exact List.forall_mem_cons.mpr ⟨hlawful.name hn, ih h⟩
  | case4 => cases h
  | case5 => cases h

theorem regular_of_resolveStart (hlawful : L.Lawful tu) {scope : Node} {parts : List (List Char)}
    {found : LookedUp Node} (h : resolveStart tu L scope parts = some found) :
    ∀ part ∈ parts, RegularPart part := by
  fun_induction resolveStart tu L scope parts with
  | case1 => cases h
  | case2 scope name => simpa using hlawful.name h
  | case3 scope name rest _ n hn ih =>
      obtain ⟨scope', -, h⟩ := Option.bind_eq_some_iff.mp h
      exact List.forall_mem_cons.mpr ⟨hlawful.name hn, ih _ h⟩
  | case4 => cases h

/-- The parts that name namespaces are looked up as they should be. -/
theorem resolveStart_of_resolveInNamespaces {scope : Node} {parts : List (List Char)} {found : LookedUp Node}
    (h : resolveInNamespaces tu L scope parts = some found) : resolveStart tu L scope parts = some found := by
  fun_induction resolveInNamespaces tu L scope parts with
  | case1 => cases h
  | case2 scope name => exact h
  | case3 scope name rest hrest n hn hnamespace ih =>
      rw [resolveStart.eq_3 _ _ _ _ _ hrest, hn]
      simp only [declaredScope, hnamespace, Option.bind_some]
      exact ih h
  | case4 => cases h
  | case5 => cases h

/-! ## The requests -/

/-- The requests for what the code finds are those for its declarations, unless one of them is a list. -/
theorem candidateRequests_eq {found : LookedUp Node}
    (h : ∀ list values, found = .ambiguous list values → ∀ v ∈ values, tu.treeCode v ≠ .treeList) :
    candidateRequests tu L found = xmlAddStartNode found := by
  cases found with
  | decl n => rfl
  | ambiguous list values =>
      have hsingle : (values.flatMap fun v => if tu.treeCode v = .treeList then L.innerCandidates v else [v]) =
          values.flatMap fun v => [v] :=
        List.flatMap_congr fun v hv => if_neg (h list values rfl v hv)
      rw [candidateRequests, hsingle, List.flatMap_singleton']
      rfl

/-- An entry that is found as it should be is requested as it should be. -/
theorem entryRequests_eq (hlawful : L.Lawful tu) {entry : List Char} (h : EntryFound tu L entry) :
    entryRequests tu L entry = xmlAddStartNode (xmlLookupStartNode tu L tu.globalNamespace entry) := by
  obtain ⟨found, hfound, hcandidates⟩ := h
  rw [xmlLookupStartNode_eq hlawful (regular_of_resolveInNamespaces hlawful hfound), hfound, entryRequests,
    resolveStart_of_resolveInNamespaces hfound]
  exact candidateRequests_eq hcandidates

/-- Only declarations are resolved. -/
theorem not_undeclared_of_resolveStart (hlawful : L.Lawful tu) {scope : Node} {parts : List (List Char)}
    {found : LookedUp Node} (h : resolveStart tu L scope parts = some found) :
    ∀ e ∈ candidateRequests tu L found, ¬ Undeclared tu L e.1 := by
  have hlookup : ∃ scope name, L.lookup tu scope name = some found := by
    fun_induction resolveStart tu L scope parts with
    | case1 => cases h
    | case2 scope name => exact ⟨scope, name, h⟩
    | case3 scope name rest _ n hn ih =>
        obtain ⟨scope', -, h⟩ := Option.bind_eq_some_iff.mp h
        exact ih _ h
    | case4 => cases h
  obtain ⟨scope', name, hlookup⟩ := hlookup
  cases found with
  | decl n =>
      intro e he
      rw [List.mem_singleton.mp he]
      exact (hlawful.decl hlookup).1
  | ambiguous list values =>
      obtain ⟨-, -, hvalues, hinner⟩ := hlawful.ambiguous hlookup
      intro e he
      obtain ⟨m, hm, rfl⟩ := List.mem_map.mp he
      obtain ⟨v, hv, hmv⟩ := List.mem_flatMap.mp hm
      split at hmv
      · exact hinner v hv m hmv
      · next hlist =>
          rw [List.mem_singleton.mp hmv]
          exact not_or.mpr ⟨hvalues v hv, hlist⟩

/-- An entry with a part that names nothing is resolved to nothing. -/
theorem entryRequests_irregular (hlawful : L.Lawful tu) {entry : List Char}
    (h : ¬ ∀ part ∈ startComponents entry, RegularPart part) : entryRequests tu L entry = [] := by
  unfold entryRequests
  split
  · next hfound => exact absurd (regular_of_resolveStart hlawful hfound) h
  · rfl

/-- Every entry has some call. -/
theorem xmlAddStartNode_ne_nil (hlawful : L.Lawful tu) (scope : Node) (entry : List Char) :
    xmlAddStartNode (xmlLookupStartNode tu L scope entry) ≠ [] := by
  obtain ⟨scope', name, hlookup⟩ := @xmlLookupStartNode_isLookup Node tu L scope entry
  rw [hlookup, NameLookup.lookupQualifiedName]
  cases hfound : L.lookup tu scope' name with
  | none => simp [xmlAddStartNode]
  | some found =>
      cases found with
      | decl n => simp [xmlAddStartNode]
      | ambiguous list values =>
          have hvalues := (hlawful.ambiguous hfound).2.1
          simpa [xmlAddStartNode] using hvalues

/-- When only declarations are requested, every entry of regular parts is found as it should be. -/
theorem entryFound_of_declared (hlawful : L.Lawful tu) {entry : List Char}
    (hregular : ∀ part ∈ startComponents entry, RegularPart part)
    (hdeclared : ∀ e ∈ xmlAddStartNode (xmlLookupStartNode tu L tu.globalNamespace entry), ¬ Undeclared tu L e.1) :
    EntryFound tu L entry := by
  rw [xmlLookupStartNode_eq hlawful hregular] at hdeclared
  cases hfound : resolveInNamespaces tu L tu.globalNamespace (startComponents entry) with
  | none =>
      rw [hfound] at hdeclared
      exact absurd (.inl rfl) (hdeclared _ List.mem_cons_self)
  | some found =>
      rw [hfound] at hdeclared
      refine ⟨found, hfound, ?_⟩
      rintro list values rfl v hv hlist
      exact hdeclared (v, true) (List.mem_map_of_mem hv) (.inr hlist)

/-- **When a start list is resolved entry by entry.** Nothing else than its entries' declarations is requested exactly
when every entry is found, with all its parts but the last naming namespaces: what is not found, and what is looked up
in a class, is requested as `error_mark_node`, and a list of candidates within another as itself. -/
theorem startListResolved_iff (hlawful : L.Lawful tu) (inStartList : List Char) :
    StartListResolved tu L inStartList ↔ ∀ entry ∈ inStartList.splitOn ',', EntryFound tu L entry := by
  rw [StartListResolved, xmlAddStartNodes_eq]
  constructor
  · intro heq
    have hdeclared : ∀ entry ∈ inStartList.splitOn ',',
        ∀ e ∈ xmlAddStartNode (xmlLookupStartNode tu L tu.globalNamespace entry), ¬ Undeclared tu L e.1 := by
      intro entry hentry e he
      have hmem := heq ▸ List.mem_flatMap_of_mem hentry he
      obtain ⟨entry', -, he⟩ := List.mem_flatMap.mp hmem
      unfold entryRequests at he
      split at he
      · next hfound => exact not_undeclared_of_resolveStart hlawful hfound e he
      · cases he
    have hlength : ∀ entry ∈ inStartList.splitOn ',', (entryRequests tu L entry).length ≤
        (xmlAddStartNode (xmlLookupStartNode tu L tu.globalNamespace entry)).length := by
      intro entry hentry
      by_cases hregular : ∀ part ∈ startComponents entry, RegularPart part
      · rw [entryRequests_eq hlawful (entryFound_of_declared hlawful hregular (hdeclared entry hentry))]
      · rw [entryRequests_irregular hlawful hregular]
        exact Nat.zero_le _
    have hentries := (flatMap_eq_iff hlength).mp heq
    intro entry hentry
    by_cases hregular : ∀ part ∈ startComponents entry, RegularPart part
    · exact entryFound_of_declared hlawful hregular (hdeclared entry hentry)
    · have hnothing := (hentries entry hentry).trans (entryRequests_irregular hlawful hregular)
      exact absurd hnothing (xmlAddStartNode_ne_nil hlawful _ _)
  · intro hfound
    exact List.flatMap_congr fun entry hentry => (entryRequests_eq hlawful (hfound entry hentry)).symm

end

/-! ### A function in a namespace

The unit is `namespace N { int f(); }`. -/

/-- The nodes of the example, with `error_mark_node`. -/
inductive NamespacedNode
  | globalNamespace | N | f | functionType | int | errorMarkNode
  deriving DecidableEq

/-- The unit, with its nodes in the order of their addresses. -/
def namespaced : TranslationUnit NamespacedNode where
  globalNamespace := .globalNamespace
  tree
    | .globalNamespace => { code := .namespaceDecl, declName := some "::" }
    | .N => { code := .namespaceDecl, declName := some "N", declContext := some .globalNamespace }
    | .f => { code := .functionDecl, declName := some "f", declContext := some .N, treeType := some .functionType }
    | .functionType => { code := .functionType, treeType := some .int }
    | .int => { code := .integerType }
    | .errorMarkNode => { code := .other .otherClass "error_mark" }
  nodes := [.globalNamespace, .N, .f, .functionType, .int, .errorMarkNode]
  mem_nodes n := by cases n <;> decide
  address
    | .globalNamespace => 0
    | .N => 1
    | .f => 2
    | .functionType => 3
    | .int => 4
    | .errorMarkNode => 5
  nodes_sorted := by decide
  rank _ := 0
  rank_lt n := by cases n <;> decide

/-- The bindings of `N` and `f`. -/
def namespacedLookup : NameLookup NamespacedNode where
  errorMarkNode := .errorMarkNode
  namespaceLookup scope name :=
    if scope = .globalNamespace ∧ name = ['N'] then some (.decl .N)
    else if scope = .N ∧ name = ['f'] then some (.decl .f)
    else none
  lookupMember _ _ := none
  innerCandidates _ := []

theorem namespacedLookup_cases {scope : NamespacedNode} {name : List Char} {found : LookedUp NamespacedNode}
    (h : namespacedLookup.lookup namespaced scope name = some found) :
    name = ['N'] ∧ found = .decl .N ∨ name = ['f'] ∧ found = .decl .f := by
  cases scope
  case globalNamespace =>
    left
    by_cases hname : name = ['N']
    · subst hname
      exact ⟨rfl, (Option.some.inj h).symm⟩
    · simp [NameLookup.lookup, namespacedLookup, namespaced, TreeGraph.treeCode, hname] at h
  case N =>
    right
    by_cases hname : name = ['f']
    · subst hname
      exact ⟨rfl, (Option.some.inj h).symm⟩
    · simp [NameLookup.lookup, namespacedLookup, namespaced, TreeGraph.treeCode, hname] at h
  all_goals cases h

theorem namespacedLookup_lawful : namespacedLookup.Lawful namespaced where
  global := rfl
  errorMark _ := rfl
  name h := by
    obtain ⟨rfl, -⟩ | ⟨rfl, -⟩ := namespacedLookup_cases h
    · exact ⟨by decide, by decide⟩
    · exact ⟨by decide, by decide⟩
  decl h := by
    obtain ⟨-, hn⟩ | ⟨-, hn⟩ := namespacedLookup_cases h
    · cases hn
      exact ⟨by simp [Undeclared, namespacedLookup, namespaced, TreeGraph.treeCode], fun hcode => absurd rfl hcode⟩
    · cases hn
      exact ⟨by simp [Undeclared, namespacedLookup, namespaced, TreeGraph.treeCode], fun _ _ => rfl⟩
  ambiguous h := by
    obtain ⟨-, hn⟩ | ⟨-, hn⟩ := namespacedLookup_cases h
    · cases hn
    · cases hn

/-- `-fxml-start=N::f` requests `f`. -/
theorem startListResolved_iff_namespaced :
    StartListResolved namespaced namespacedLookup "N::f".toList ↔
      ∀ entry ∈ "N::f".toList.splitOn ',', EntryFound namespaced namespacedLookup entry :=
  startListResolved_iff namespacedLookup_lawful "N::f".toList

/-- `-fxml-start=g` requests `error_mark_node`, although nothing is named `g`. -/
theorem startListResolved_unknown : ¬ StartListResolved namespaced namespacedLookup ['g'] := by
  have hnode : xmlLookupStartNode namespaced namespacedLookup .globalNamespace ['g'] = .decl .errorMarkNode :=
    xmlLookupStartNode_name (by decide) _
  have hlist : ['g'].splitOn ',' = [['g']] := List.splitOn_eq_singleton (by decide)
  intro h
  rw [StartListResolved, xmlAddStartNodes_eq, hlist, List.flatMap_singleton, List.flatMap_singleton] at h
  have hrequests : entryRequests namespaced namespacedLookup ['g'] = [] := rfl
  have hcall := hnode ▸ (h.trans hrequests)
  cases hcall

end GccXml
