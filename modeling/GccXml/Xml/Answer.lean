import GccXml.Xml.AddNode

namespace GccXml

/-! # `Xml.Answer` — which node answers a request

A request is answered with the index of one node or with 0. A node that is registered answers a request for itself;
apart from it, only the declaration that defines a class or an enumeration, and a pointer to a member function, are
answered with another node.

`xml_add_node` may send a request on before anything is registered: a declaration of a type to that type, a list or an
overload to its members, a template to its instances. `LogAnswers` says of the log of such a request that every node
that is registered on the way answers a request for itself, and it is proved along the functions of `Xml.AddNode`,
one lemma for each. `answer_of_registered` is what remains of it.

`StandsFor` names the three ways in which a request and its answer can differ, and `Defines` the one of them that
prints the index of another node: the declaration that is the definition of a class or enumeration. `Xml.Members` says
with them which elements the members of a namespace or class are found in. -/

section
variable {Node : Type} [DecidableEq Node] {tu : TranslationUnit Node}

/-- The answer is that of the body of `xml_add_node`. -/
theorem answer_eq (n : Node) (c : Bool) : answer tu n = (xmlAddNodeBody tu (xmlAddNode tu) n c).value := by
  rw [← xmlAddNode_value tu n c, ← xmlAddNode_eq]

/-! ## What is registered answers itself -/

variable (tu) in
/-- What `f` registers in a request for `n` answers itself, or it is `n` and the request is answered with it. -/
def LogAnswers (n : Node) (f : Bool → Reg Node (Option Node)) : Prop :=
  ∀ c, ∀ e ∈ (f c).log, answer tu e.1 = some e.1 ∨ (e.1 = n ∧ (f c).value = some n)

namespace LogAnswers

theorem declined (n : Node) : LogAnswers tu n fun _ => pure none := by
  intro c e he
  simp at he

theorem real (n : Node) : LogAnswers tu n (xmlAddNodeReal n) := by
  intro c e he
  rw [xmlAddNodeReal, List.mem_singleton] at he
  rw [he]
  exact Or.inr ⟨rfl, rfl⟩

/-- What only goes on to requests whose log answers itself. -/
theorem of_log {n : Node} {f : Bool → Reg Node (Option Node)}
    (h : ∀ c, ∀ e ∈ (f c).log, answer tu e.1 = some e.1) : LogAnswers tu n f := fun c e he => Or.inl (h c e he)

end LogAnswers

section
variable {a : Node → Bool → Reg Node (Option Node)}

theorem xmlAddTypedef_answers {td : Node} (hcode : tu.treeCode td = .typeDecl)
    (h : ∀ m, tu.rank m < tu.rank td → ∀ c, ∀ e ∈ (a m c).log, answer tu e.1 = some e.1) :
    LogAnswers tu td (xmlAddTypedef tu a td) := by
  have htype := h (tu.treeType td) (tu.rank_redirects (by simp [TreeGraph.redirects, hcode]))
  have htarget := h (tu.typeMainVariant (tu.typedefTarget td))
    (tu.rank_redirects (by simp [TreeGraph.redirects, hcode]))
  intro c e he
  unfold xmlAddTypedef at he ⊢
  split at he
  · exact Or.inl (htype c e (by simpa using he))
  · rename_i hself
    rw [if_neg hself]
    simp only [Trace.log_bind, List.mem_append] at he
    rcases he with he | he
    · exact Or.inl (htarget c e he)
    · split at he
      · rename_i hsome
        rw [xmlAddNodeReal, List.mem_singleton] at he
        rw [he]
        exact Or.inr ⟨rfl, by simp [hsome, xmlAddNodeReal]⟩
      · simp at he

theorem xmlAddTypeDecl_answers {td : Node} (hcode : tu.treeCode td = .typeDecl)
    (h : ∀ m, tu.rank m < tu.rank td → ∀ c, ∀ e ∈ (a m c).log, answer tu e.1 = some e.1) :
    LogAnswers tu td (xmlAddTypeDecl tu a td) := by
  have htype := h (tu.treeType td) (tu.rank_redirects (by simp [TreeGraph.redirects, hcode]))
  have htypedef := xmlAddTypedef_answers hcode h
  unfold xmlAddTypeDecl
  dsimp only
  split
  case h_17 => exact .real td
  case h_13 | h_14 | h_15 | h_16 =>
    split
    · exact htypedef
    · split
      · exact .of_log htype
      · exact htypedef
  all_goals exact htypedef

omit [DecidableEq Node] in
theorem mem_log_xmlAddTemplateDeclFuel {fuel : Nat} {td : Node} {c : Bool} {e : Node × Bool}
    (hcode : tu.treeCode td = .templateDecl) (he : e ∈ (xmlAddTemplateDeclFuel tu a fuel td c).log) :
    ∃ m, tu.rank m < tu.rank td ∧ ∃ c, e ∈ (a m c).log := by
  induction fuel generalizing td c with
  | zero => simp [xmlAddTemplateDeclFuel] at he
  | succ fuel ih =>
      simp only [xmlAddTemplateDeclFuel, Trace.log_bind, Trace.log_each, Trace.log_when, Trace.log_pure,
        List.append_nil, List.mem_append, List.mem_flatMap] at he
      rcases he with ⟨ts, hts, he⟩ | ⟨t, ht, he⟩ | he
      · unfold xmlAddSpecialization at he
        split at he
        · rename_i hc
          exact ⟨ts, tu.rank_redirects (by simp [TreeGraph.redirects, hcode, hts, hc]), c, by simpa using he⟩
        · simp at he
      · unfold xmlAddInstantiation at he
        dsimp only at he
        split at he
        · rename_i hc
          split at he
          · simp at he
          · exact ⟨_, tu.rank_redirects (mem_redirects_instantiation hcode ht hc), c, by simpa using he⟩
        · simp at he
      · split at he
        · obtain ⟨tl, htl, he⟩ := List.mem_flatMap.mp he
          obtain ⟨m, hm, hlog⟩ := ih (mem_memberTemplates_code htl) (by simpa using he)
          exact ⟨m, Nat.lt_trans hm (rank_memberTemplates hcode htl), hlog⟩
        · simp at he

/-- One level of `xml_add_node`. -/
theorem xmlAddNodeBody_answers {n : Node}
    (h : ∀ m, tu.rank m < tu.rank n → ∀ c, ∀ e ∈ (a m c).log, answer tu e.1 = some e.1) :
    LogAnswers tu n (xmlAddNodeBody tu a n) := by
  -- a list of overloads is answered with nothing, so only its members count
  have hoverload : ∀ o, (∀ m ∈ tu.ovlChain o, tu.rank m < tu.rank n) → LogAnswers tu n (xmlAddOverload tu a o) := by
    intro o ho
    refine .of_log fun c e he => ?_
    simp only [xmlAddOverload, Trace.log_bind, Trace.log_each, Trace.log_discard, Trace.log_pure, List.append_nil,
      List.mem_flatMap] at he
    obtain ⟨m, hm, he⟩ := he
    exact h m (ho m hm) c e he
  unfold xmlAddNodeBody
  split
  · exact .declined n
  split
  · exact .declined n
  split
  · exact .real n
  · rename_i hcode; exact xmlAddTypeDecl_answers hcode h
  · rename_i hcode
    split
    · rename_i o ho
      exact hoverload o fun m hm => tu.rank_redirects (by simp [TreeGraph.redirects, hcode, ho, hm])
    · exact .declined n
  · rename_i hcode
    exact hoverload n fun m hm => tu.rank_redirects (by simp [TreeGraph.redirects, hcode, hm])
  · rename_i hcode
    refine .of_log fun c e he => ?_
    obtain ⟨m, hm, c, he⟩ := mem_log_xmlAddTemplateDeclFuel hcode he
    exact h m hm c e he
  -- classes: a pointer to member function stands for its function type, a template is declined
  case h_6 | h_7 | h_8 =>
    split
    · rename_i hp
      exact .of_log (h _ (rank_typePtrmemfuncFnType hp))
    · split
      · exact .real n
      · exact .declined n
  · exact .declined n
  · exact .real n

end

/-- **What is registered answers a request for itself.** -/
theorem answer_of_registered {n r : Node} {c : Bool} (h : r ∈ registered tu n c) : answer tu r = some r := by
  have hlog : ∀ n c, ∀ e ∈ (xmlAddNode tu n c).log, answer tu e.1 = some e.1 := by
    intro n
    induction hr : tu.rank n using Nat.strongRecOn generalizing n with
    | _ k ih =>
        intro c e he
        rw [xmlAddNode_eq] at he
        rcases xmlAddNodeBody_answers (fun m hm => ih (tu.rank m) (hr ▸ hm) m rfl) c e he with ha | ⟨hn, hv⟩
        · exact ha
        · rw [hn, answer_eq n c, hv]
  exact hlog n c (r, c) ((mem_registered tu).mp h)

/-! ## What is answered with another node -/

/-- The codes of the types that a declaration can define. -/
def TreeCode.isClassOrEnum : TreeCode → Bool
  | .enumeralType | .unionType | .qualUnionType | .recordType => true
  | _ => false

variable (tu) in
/-- The declaration `td` is the one that defines the class or enumeration `t`. -/
def Defines (td t : Node) : Prop :=
  tu.treeCode td = .typeDecl ∧ (tu.tree td).declSourceLine ≠ 0 ∧ tu.treeType td = t ∧
    (tu.treeCode t).isClassOrEnum = true ∧ tu.typePtrmemfuncP t = false ∧ isTypeDefinition tu td = true

instance (td t : Node) : Decidable (Defines tu td t) := inferInstanceAs (Decidable (_ ∧ _))

variable (tu) in
/-- A request for `n` stands for `m`: it is `m` itself, the declaration that defines `m`, or a pointer to a member
    function that is answered with `m`. -/
def StandsFor (n m : Node) : Prop :=
  n = m ∨ Defines tu n m ∨ (tu.typePtrmemfuncP n = true ∧ answer tu n = some m)

instance (n m : Node) : Decidable (StandsFor tu n m) := inferInstanceAs (Decidable (_ ∨ _))

theorem value_xmlAddTypedef {a : Node → Bool → Reg Node (Option Node)} {td r : Node} {c : Bool}
    (h : (xmlAddTypedef tu a td c).value = some r) : r = td := by
  unfold xmlAddTypedef at h
  split at h
  · simp at h
  · simp only [Trace.value_bind] at h
    split at h
    · simpa [xmlAddNodeReal, eq_comm] using h
    · simp at h

/-- A class or an enumeration answers itself or is declined. -/
theorem answer_classOrEnum {t m : Node} (hcode : (tu.treeCode t).isClassOrEnum = true)
    (hp : tu.typePtrmemfuncP t = false) (h : answer tu t = some m) : t = m := by
  rw [answer_eq t false] at h
  unfold xmlAddNodeBody at h
  split at h
  · simp at h
  split at h
  · simp at h
  split at h <;> rename_i hc <;> simp only [hc, TreeCode.isClassOrEnum, Bool.false_eq_true] at hcode
  case h_6 | h_7 | h_8 =>
    rw [if_neg (by simp [hp])] at h
    split at h
    · simpa [xmlAddNodeReal] using h
    · simp at h
  case h_10 => simpa [xmlAddNodeReal] using h

/-- What is queued for a request stands for itself. -/
theorem standsFor_of_xmlAddNodeReal {n m : Node} {c : Bool} (hv : (xmlAddNodeReal n c).value = some m) :
    StandsFor tu n m := Or.inl (by simpa [xmlAddNodeReal] using hv)

/-- A `TYPE_DECL` stands for itself, or for the class or enumeration that it defines. -/
theorem standsFor_of_xmlAddTypeDecl {n m : Node} (hcode : tu.treeCode n = .typeDecl)
    (hline : (tu.tree n).declSourceLine ≠ 0)
    (hbody : (xmlAddTypeDecl tu (xmlAddNode tu) n false).value = some m) : StandsFor tu n m := by
  have htypedef : ∀ c, (xmlAddTypedef tu (xmlAddNode tu) n c).value = some m → StandsFor tu n m :=
    fun c hv => Or.inl (value_xmlAddTypedef hv).symm
  unfold xmlAddTypeDecl at hbody
  dsimp only at hbody
  split at hbody
  case h_17 => exact standsFor_of_xmlAddNodeReal hbody
  case h_13 | h_14 | h_15 | h_16 =>
    -- a class or an enumeration: its own declaration stands for the type
    rename_i htype
    split at hbody
    · exact htypedef false hbody
    · rename_i hpt
      split at hbody
      · rename_i hdef
        have hclass : (tu.treeCode (tu.treeType n)).isClassOrEnum = true := by simp [htype, TreeCode.isClassOrEnum]
        have hpt : tu.typePtrmemfuncP (tu.treeType n) = false := by simpa using hpt
        have ht : tu.treeType n = m := answer_classOrEnum hclass hpt hbody
        subst ht
        exact Or.inr (Or.inl ⟨hcode, hline, rfl, hclass, hpt, hdef⟩)
      · exact htypedef false hbody
  all_goals exact htypedef false hbody

/-- **What a request is answered with**: the node that it stands for. -/
theorem standsFor_of_answer {n m : Node} (h : answer tu n = some m) : StandsFor tu n m := by
  by_cases hp : tu.typePtrmemfuncP n = true
  · exact Or.inr (Or.inr ⟨hp, h⟩)
  have hbody := h
  rw [answer_eq n false] at hbody
  unfold xmlAddNodeBody at hbody
  split at hbody
  · simp at hbody
  rename_i hline
  split at hbody
  · simp at hbody
  split at hbody
  · exact standsFor_of_xmlAddNodeReal hbody
  · rename_i hcode
    have hline : (tu.tree n).declSourceLine ≠ 0 := fun h0 =>
      hline ⟨by simp [hcode], by simp [TreeGraph.declP, hcode, TreeCode.codeClass], h0⟩
    exact standsFor_of_xmlAddTypeDecl hcode hline hbody
  · split at hbody
    · simp [xmlAddOverload] at hbody
    · simp at hbody
  · simp [xmlAddOverload] at hbody
  · simp [xmlAddTemplateDecl, xmlAddTemplateDeclFuel] at hbody
  case h_6 | h_7 | h_8 =>
    split at hbody
    · exact standsFor_of_xmlAddNodeReal hbody
    · simp at hbody
  · simp at hbody
  · exact standsFor_of_xmlAddNodeReal hbody

/-- A request is answered with the node that it stands for, when that node is not declined. -/
theorem answer_of_standsFor {n m : Node} (hm : answer tu m = some m) (h : StandsFor tu n m) : answer tu n = some m := by
  rcases h with rfl | ⟨hcode, hline, rfl, hclass, hp, hdef⟩ | ⟨-, h⟩
  · exact hm
  · have hbody : (xmlAddTypeDecl tu (xmlAddNode tu) n false).value = answer tu (tu.treeType n) := by
      unfold xmlAddTypeDecl
      dsimp only
      split <;> rename_i hc <;> simp only [hc, TreeCode.isClassOrEnum, Bool.false_eq_true] at hclass
      all_goals
        rw [if_neg (by simp [hp]), if_pos hdef]
        rfl
    rw [answer_eq n false]
    unfold xmlAddNodeBody
    rw [if_neg fun h => hline h.2.2, if_neg fun h => by simp [hcode] at h]
    simp only [hcode]
    rw [hbody, hm]
  · exact h

end

end GccXml
