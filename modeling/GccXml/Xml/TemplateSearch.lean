import GccXml.Lib.Search
import GccXml.Xml.AddNode

namespace GccXml

/-! # `Xml.TemplateSearch` — which template parameters the search finds

`xml_find_template_parm` is a search: it answers 1 for some codes and goes on to some parts of a tree. The parts that
it leaves out are given here beside those that it searches, so that what it finds can be compared with what there is.

`searched` and `unsearched` list the parts of a tree, `isAnswered` the codes that are answered 1, and `isTemplateParm`
the ones among them that are template parameters. What occurs in a tree is reached through all parts (`Depends`), what
the search finds is reached through the searched parts only (`Shows`). `xmlFindTemplateParm_iff` is proved by induction
over the tree, one case for each constructor, from the equation `xmlFindTemplateParm_eq` that says the same of one
level; so no later proof looks at the function again.

For `xml_add_template_decl` the walk over class templates, their specializations and their member templates is followed
as a relation (`TemplateWalk`), to say which instantiations are given to `xml_add_node` at all. The search misses no
parameter exactly on the trees in which something answered 1 shows whenever a parameter occurs; a static cast hides
one. -/

open Search

/-! ## The parts of a tree -/

/-- The purposes and values of a chain of `TREE_LIST` nodes. -/
def TypeList.trees : TypeList → List TypeTree
  | .nil => []
  | .cons purpose value chain => purpose :: value :: chain.trees

namespace TypeTree

/-- The parts that `xml_find_template_parm` searches. -/
def searched : TypeTree → List TypeTree
  | .treeVec elts => elts
  | .treeList purpose value _ => [purpose, value]
  | .functionType _ result argTypes => result :: argTypes.trees
  | .ptrmemfunc fnType => [fnType]
  | .templateClass _ tiArgs => [tiArgs]
  | .plainClass _ treeType => [treeType]
  | .nested _ treeType => [treeType]
  | .arrayType treeType _ => [treeType]
  | .offsetType basetype treeType => [basetype, treeType]
  | .ptrmemCst ptrmemClass ptrmemMember => [ptrmemClass, ptrmemMember]
  | .ref _ treeType _ => [treeType]
  | .unary _ operand => [operand]
  | .binary _ operand₀ operand₁ => [operand₀, operand₁]
  | .condExpr operand₀ operand₁ operand₂ => [operand₀, operand₁, operand₂]
  | .typeofType expr => [expr]
  | .callExpr func args => func :: args.trees
  | .templateIdExpr template args => template :: args
  | _ => []

/-- The parts that it does not search: the rest of a list, the type and the operand of a `static_cast`, the bound of an
    array, the operands of a reference, and those of any code that it does not know. -/
def unsearched : TypeTree → List TypeTree
  | .treeList _ _ chain => chain.trees
  | .castExpr operands => operands
  | .staticCastExpr type operand => [type, operand]
  | .complexType treeType => [treeType]
  | .arrayType _ bound => [bound]
  | .ref _ _ operands => operands
  | .other _ operands => operands
  | _ => []

/-- All the parts of a tree. -/
def parts (t : TypeTree) : List TypeTree := t.searched ++ t.unsearched

/-- A template parameter. -/
def isTemplateParm : TypeTree → Bool
  | .dependent .templateTypeParm | .dependent .templateTemplateParm | .dependent .templateParmIndex
  | .dependent .typenameType | .dependent .boundTemplateTemplateParm => true
  | _ => false

/-- A code that is answered 1: a template parameter, a declaration, an `OVERLOAD`, a `SCOPE_REF` or a `CAST_EXPR`. -/
def isAnswered : TypeTree → Bool
  | .dependent _ | .castExpr _ => true
  | _ => false

/-- **A template parameter occurs in the tree.** -/
def Depends (t : TypeTree) : Prop := ∃ u, Reaches parts t u ∧ u.isTemplateParm = true

/-- A code that is answered 1 occurs where the search gets to. -/
def Shows (t : TypeTree) : Prop := ∃ u, Reaches searched t u ∧ u.isAnswered = true

end TypeTree

/-! ## The search -/

open TypeTree

theorem sizeOf_lt_of_mem_trees {l : TypeList} {u : TypeTree} (h : u ∈ l.trees) : sizeOf u < sizeOf l := by
  induction l using TypeList.trees.induct with
  | case1 => exact absurd h List.not_mem_nil
  | case2 purpose value chain ih =>
      simp only [TypeList.trees, List.mem_cons] at h
      rcases h with rfl | rfl | h
      · simp
        omega
      · simp
        omega
      · have hlt := ih h
        simp
        omega

/-- The search goes on to smaller trees. -/
theorem sizeOf_searched (t : TypeTree) : ∀ u ∈ t.searched, sizeOf u < sizeOf t := by
  intro u hu
  cases t with
  | treeVec elts =>
      have hlt := List.sizeOf_lt_of_mem (show u ∈ elts from hu)
      simp
      omega
  | functionType isMethod result argTypes =>
      rcases List.mem_cons.mp hu with rfl | hu
      · simp
        omega
      · have hlt := sizeOf_lt_of_mem_trees hu
        simp
        omega
  | callExpr func args =>
      rcases List.mem_cons.mp hu with rfl | hu
      · simp
        omega
      · have hlt := sizeOf_lt_of_mem_trees hu
        simp
        omega
  | templateIdExpr template args =>
      rcases List.mem_cons.mp hu with rfl | hu
      · simp
        omega
      · have hlt := List.sizeOf_lt_of_mem hu
        simp
        omega
  | _ =>
      simp only [searched, List.mem_cons, List.not_mem_nil, or_false] at hu <;>
        first
        | (subst hu; simp <;> omega)
        | (rcases hu with rfl | rfl <;> simp <;> omega)
        | (rcases hu with rfl | rfl | rfl <;> simp <;> omega)

theorem xmlFindTemplateParmAny_eq (ts : List TypeTree) : xmlFindTemplateParmAny ts = ts.any xmlFindTemplateParm := by
  induction ts with
  | nil => rfl
  | cons t ts ih => rw [xmlFindTemplateParmAny, ih, List.any_cons]

/-- A chain is searched by its purposes and values. -/
theorem xmlFindTemplateParmList_eq (l : TypeList) : xmlFindTemplateParmList l = l.trees.any xmlFindTemplateParm := by
  induction l using TypeList.trees.induct with
  | case1 => rfl
  | case2 purpose value chain ih =>
      rw [xmlFindTemplateParmList, ih, TypeList.trees, List.any_cons, List.any_cons, Bool.or_assoc]

/-- One round of the search: the code of the tree, then its searched parts. -/
theorem xmlFindTemplateParm_eq (t : TypeTree) :
    xmlFindTemplateParm t = (t.isAnswered || t.searched.any xmlFindTemplateParm) := by
  cases t <;> simp [xmlFindTemplateParm, isAnswered, searched, xmlFindTemplateParmAny_eq, xmlFindTemplateParmList_eq,
    Bool.or_assoc]

/-- **What `xml_find_template_parm` finds.** -/
theorem xmlFindTemplateParm_iff (t : TypeTree) : xmlFindTemplateParm t = true ↔ t.Shows :=
  search_iff sizeOf_searched xmlFindTemplateParm_eq t

/-! ## Instantiations

`xml_add_template_decl` calls `xml_add_node` for the instantiations whose arguments the search finds nothing in. -/

section
variable {Node : Type} (tu : TranslationUnit Node)

/-- A call of `xml_add_node` that is only recorded. -/
def recordCall (n : Node) (complete : Bool) : Reg Node (Option Node) := ⟨none, [(n, complete)]⟩

/-- The nodes that `xml_add_template_decl` calls `xml_add_node` for, with the flags. -/
def templateCalls (td : Node) (complete : Bool) : List (Node × Bool) := (xmlAddTemplateDecl tu recordCall td complete).log

/-- The template arguments of the class that the declaration `ts` names. -/
def instantiationArgs (ts : Node) : TypeTree := (tu.tree (tu.treeType ts)).typeTiArgs

/-- The templates that `xml_add_template_decl` goes through for `td`, with the flags: `td` itself, and its member
    templates if it is complete. -/
inductive TemplateWalk : Node → Bool → Node → Bool → Prop
  | self (td : Node) (complete : Bool) : TemplateWalk td complete td complete
  | member {td tl t : Node} {c : Bool} : tl ∈ tu.memberTemplates td → TemplateWalk tl true t c → TemplateWalk td true t c

/-- `ts` declares an instantiation of a template that is gone through for `td`. -/
def Instantiates (td : Node) (complete : Bool) (ts : Node) (c : Bool) : Prop :=
  ∃ t, TemplateWalk tu td complete t c ∧ ∃ i ∈ (tu.tree t).declTemplateInstantiations,
    tu.typeNameOf i = ts ∧ tu.treeCode ts = .typeDecl

theorem mem_calls_xmlAddSpecialization {ts n : Node} {complete c : Bool} (hn : tu.treeCode n = .typeDecl) :
    (n, c) ∉ (xmlAddSpecialization tu recordCall ts complete).log := by
  unfold xmlAddSpecialization
  split
  · rename_i hcode
    intro hmem
    have heq : n = ts := by
      simp [recordCall] at hmem
      exact hmem.1
    rw [heq, hcode] at hn
    cases hn
  · simp

theorem mem_calls_xmlAddInstantiation {i n : Node} {complete c : Bool} :
    (n, c) ∈ (xmlAddInstantiation tu recordCall i complete).log ↔
      tu.typeNameOf i = n ∧ tu.treeCode n = .typeDecl ∧ c = complete ∧
        xmlFindTemplateParm (instantiationArgs tu n) = false := by
  unfold xmlAddInstantiation instantiationArgs
  dsimp only
  split
  · rename_i hcode
    split
    · rename_i hfind
      constructor
      · -- the arguments hold a template parameter: the instantiation is skipped
        intro hmem
        simp at hmem
      · rintro ⟨rfl, -, -, hnot⟩
        rw [hfind] at hnot
        cases hnot
    · rename_i hfind
      rw [Bool.not_eq_true] at hfind
      constructor
      · intro hmem
        obtain ⟨rfl, rfl⟩ : n = tu.typeNameOf i ∧ c = complete := by simpa [recordCall] using hmem
        exact ⟨rfl, hcode, rfl, hfind⟩
      · rintro ⟨rfl, -, rfl, -⟩
        simp [recordCall]
  · rename_i hcode
    constructor
    · intro hmem
      simp at hmem
    · rintro ⟨rfl, hn, -⟩
      exact absurd hn hcode

/-- With fuel for the nesting of member templates, the types that are added are the instantiations without a find. -/
theorem mem_calls_xmlAddTemplateDeclFuel {fuel : Nat} {td n : Node} {complete c : Bool}
    (hcode : tu.treeCode td = .templateDecl) (hf : tu.rank td < fuel) (hn : tu.treeCode n = .typeDecl) :
    (n, c) ∈ (xmlAddTemplateDeclFuel tu recordCall fuel td complete).log ↔
      Instantiates tu td complete n c ∧ xmlFindTemplateParm (instantiationArgs tu n) = false := by
  induction fuel generalizing td complete with
  | zero => exact absurd hf (Nat.not_lt_zero _)
  | succ fuel ih =>
      -- specializations are functions here, and `n` is a type declaration
      have hspec : (n, c) ∉ (tu.tree td).declTemplateSpecializations.flatMap fun ts =>
          (xmlAddSpecialization tu recordCall ts complete).log := by
        intro hmem
        obtain ⟨ts, -, hts⟩ := List.mem_flatMap.mp hmem
        exact mem_calls_xmlAddSpecialization tu hn hts
      have hown : ((n, c) ∈ (tu.tree td).declTemplateInstantiations.flatMap fun i =>
          (xmlAddInstantiation tu recordCall i complete).log) ↔
          (c = complete ∧ ∃ i ∈ (tu.tree td).declTemplateInstantiations, tu.typeNameOf i = n) ∧
            xmlFindTemplateParm (instantiationArgs tu n) = false := by
        simp only [List.mem_flatMap, mem_calls_xmlAddInstantiation]
        constructor
        · rintro ⟨i, hi, hname, -, hc, hfind⟩
          exact ⟨⟨hc, i, hi, hname⟩, hfind⟩
        · rintro ⟨⟨hc, i, hi, hname⟩, hfind⟩
          exact ⟨i, hi, hname, hn, hc, hfind⟩
      -- a member template has a smaller rank and asks for everything complete
      have hmember : ∀ tl ∈ tu.memberTemplates td, ((n, c) ∈ (xmlAddTemplateDeclFuel tu recordCall fuel tl true).log ↔
          Instantiates tu tl true n c ∧ xmlFindTemplateParm (instantiationArgs tu n) = false) := by
        intro tl htl
        have hrank := rank_memberTemplates hcode htl
        exact ih (mem_memberTemplates_code htl) (by omega)
      have hlog : (xmlAddTemplateDeclFuel tu recordCall (fuel + 1) td complete).log =
          ((tu.tree td).declTemplateSpecializations.flatMap fun ts =>
            (xmlAddSpecialization tu recordCall ts complete).log) ++
          (((tu.tree td).declTemplateInstantiations.flatMap fun i =>
            (xmlAddInstantiation tu recordCall i complete).log) ++
          if complete then (tu.memberTemplates td).flatMap fun tl =>
            (xmlAddTemplateDeclFuel tu recordCall fuel tl true).log else []) := by
        simp [xmlAddTemplateDeclFuel]
      rw [hlog, List.mem_append, List.mem_append, or_iff_right hspec, hown]
      constructor
      · rintro (⟨⟨rfl, i, hi, hname⟩, hfind⟩ | hmem)
        · exact ⟨⟨td, .self td c, i, hi, hname, hn⟩, hfind⟩
        · cases complete with
          | false => exact absurd hmem List.not_mem_nil
          | true =>
              obtain ⟨tl, htl, hmem⟩ := List.mem_flatMap.mp hmem
              obtain ⟨⟨t, hwalk, hi⟩, hfind⟩ := (hmember tl htl).mp hmem
              exact ⟨⟨t, .member htl hwalk, hi⟩, hfind⟩
      · rintro ⟨⟨t, hwalk, i, hi, hname, -⟩, hfind⟩
        cases hwalk with
        | self => exact Or.inl ⟨⟨rfl, i, hi, hname⟩, hfind⟩
        | @member _ tl _ _ htl hwalk =>
            have hmem := (hmember tl htl).mpr ⟨⟨t, hwalk, i, hi, hname, hn⟩, hfind⟩
            exact Or.inr (List.mem_flatMap.mpr ⟨tl, htl, hmem⟩)

/-- A template declaration of the unit. -/
abbrev TemplateDecl : Type := { td : Node // tu.treeCode td = .templateDecl }

/-- **The search misses no template parameter, and no dependent instantiation is added, exactly where something that is
    answered 1 shows.** The first part is about every tree, the second about every call of `xml_add_template_decl`. -/
theorem xmlFindTemplateParm_misses_none_iff (td : TemplateDecl tu) (complete : Bool) :
    (∀ t : TypeTree, (t.Depends → xmlFindTemplateParm t = true) ↔ (t.Depends → t.Shows)) ∧
      ((∀ ts c, (ts, c) ∈ templateCalls tu td complete → tu.treeCode ts = .typeDecl →
          ¬ (instantiationArgs tu ts).Depends) ↔
        ∀ ts c, Instantiates tu td complete ts c → (instantiationArgs tu ts).Depends →
          (instantiationArgs tu ts).Shows) := by
  have hcalls : ∀ ts c, tu.treeCode ts = .typeDecl → ((ts, c) ∈ templateCalls tu td complete ↔
      Instantiates tu td complete ts c ∧ ¬ (instantiationArgs tu ts).Shows) := by
    intro ts c hts
    rw [← xmlFindTemplateParm_iff, Bool.not_eq_true]
    exact mem_calls_xmlAddTemplateDeclFuel tu td.2 (Nat.lt_succ_self _) hts
  refine ⟨fun t => by rw [xmlFindTemplateParm_iff], ?_⟩
  constructor
  · intro hnone ts c hinst hdep
    have hts : tu.treeCode ts = .typeDecl := by
      obtain ⟨_, _, _, _, _, hts⟩ := hinst
      exact hts
    by_contra hshows
    exact hnone ts c ((hcalls ts c hts).mpr ⟨hinst, hshows⟩) hts hdep
  · intro hshow ts c hmem hts hdep
    obtain ⟨hinst, hshows⟩ := (hcalls ts c hts).mp hmem
    exact hshows (hshow ts c hinst hdep)

end

/-! ### A static cast as a template argument

In `template <int N> struct B { A<static_cast<int>(N)> a; };` the argument of `A` depends on `N`. -/

/-- The arguments of the instantiation `A<static_cast<int>(N)>`. -/
def staticCastArgs : TypeTree := .treeVec [.staticCastExpr (.leaf .integerType) (.dependent .templateParmIndex)]

/-- The template `A` with this instantiation. -/
def staticCastInstantiation : TranslationUnit (Fin 4) where
  globalNamespace := 0
  tree
    | 0 => { code := .namespaceDecl, declName := some "::" }
    | 1 => { code := .templateDecl, declName := some "A", declContext := some 0, declTemplateInstantiations := [2] }
    | 2 => { code := .recordType, typeName := some 3, typeTiArgs := staticCastArgs }
    | _ => { code := .typeDecl, declName := some "A", declContext := some 0, treeType := some 2
             declImplicitTypedefP := true, declArtificial := true }
  nodes := List.finRange 4
  mem_nodes := List.mem_finRange
  address := Fin.val
  nodes_sorted := by decide
  rank
    | 1 => 2
    | 3 => 1
    | _ => 0
  rank_lt := by decide

/-- A template parameter is missed, and so the dependent instantiation is added. -/
theorem missed_staticCastInstantiation :
    staticCastArgs.Depends ∧ xmlFindTemplateParm staticCastArgs = false ∧
      instantiationArgs staticCastInstantiation 3 = staticCastArgs ∧
      (3, true) ∈ templateCalls staticCastInstantiation 1 true := by
  refine ⟨⟨.dependent .templateParmIndex, ?_, rfl⟩, by decide, rfl, by decide⟩
  exact .head (List.mem_append_left _ List.mem_cons_self) (.head (List.mem_append_right _ (by simp [TypeTree.unsearched]))
    (.refl _))

end GccXml
