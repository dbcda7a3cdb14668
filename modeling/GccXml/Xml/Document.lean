import GccXml.Xml.Elements
import GccXml.Xml.Printed
import Mathlib.Data.List.Induction

namespace GccXml

/-! # `Xml.Document` — the document that a run writes

A printing function writes no reference before it has asked `xml_add_node` for the index in it, and no file reference
before the file is queued. Indices stay, so the document is the list of the entries of the printed nodes with the
indices of the end of the run.

A log is grounded if every index that it writes was requested before, in the same log. Being grounded is checked
against the indices that are known at a point, and it is kept when more are known; so a sequence of printing functions
is grounded if each of them is when what the earlier ones asked for is known. That makes it a property of the functions
of `xml.c` one by one, and the middle part of the module proves it of each.

A run executes grounded logs one after the other. Its text is the fragments of these logs, each with the indices of the
state in which it was written; a grounded fragment has the same text with the indices of any later state. So the whole
document can be written down with one assignment of indices, that of the end. -/

open DumpInfo

section
variable {Node : Type} [DecidableEq Node] (tu : TranslationUnit Node)

/-! ## References are asked for first -/

/-- The node whose index a piece shows. -/
def Piece.node? : SymPiece Node → Option Node
  | .id i => i
  | .typeId _ i _ => i
  | _ => none

/-- The file whose index a piece shows. -/
def Piece.file? : SymPiece Node → Option String
  | .file f => some f
  | _ => none

/-- The pieces of a fragment. -/
def Frag.pieces {ι φ : Type} : Frag Node ι φ → List (Piece Node ι φ)
  | .attr _ value => value
  | _ => []

/-- What the piece shows was asked for in `log`, or it is the node `own` itself. -/
def Asked (own : Node) (log : List (Action Node)) (x : SymPiece Node) : Prop :=
  (∀ r, x.node? = some r → r = own ∨ ∃ m c, .addNode m c ∈ log ∧ answer tu m = some r) ∧
    ∀ f, x.file? = some f → .queueFile f ∈ log

/-- In the effects `log` of printing the node `own`, everything is asked for before it is written. -/
def Grounded (own : Node) (log : List (Action Node)) : Prop :=
  ∀ before frag after, log = before ++ .emit frag :: after → ∀ x ∈ frag.pieces, Asked tu own before x

variable {tu}

theorem Asked.mono {own : Node} {log log' : List (Action Node)} {x : SymPiece Node} (h : Asked tu own log x)
    (hsub : ∀ a ∈ log, a ∈ log') : Asked tu own log' x := by
  refine ⟨fun r hr => ?_, fun f hf => hsub _ (h.2 f hf)⟩
  rcases h.1 r hr with hown | ⟨m, c, hm, ha⟩
  · exact Or.inl hown
  · exact Or.inr ⟨m, c, hsub _ hm, ha⟩

theorem Asked.of_isText {own : Node} {log : List (Action Node)} {x : SymPiece Node} (h : x.isText = true) :
    Asked tu own log x := by
  refine ⟨fun r hr => ?_, fun f hf => ?_⟩ <;> cases x <;> simp_all [Piece.isText, Piece.node?, Piece.file?]

omit [DecidableEq Node] in
theorem mem_fragsOf {α : Type} {p : Print Node α} {frag : SymFrag Node} (h : .emit frag ∈ p.log) :
    frag ∈ fragsOf p := List.mem_filterMap.mpr ⟨_, h, rfl⟩

namespace Grounded

theorem append {own : Node} {l l' : List (Action Node)} (h : Grounded tu own l) (h' : Grounded tu own l') :
    Grounded tu own (l ++ l') := by
  intro before frag after heq x hx
  rcases List.append_eq_append_iff.mp heq with ⟨as, rfl, hl'⟩ | ⟨bs, rfl, hbs⟩
  · exact (h' as frag after hl' x hx).mono fun a ha => List.mem_append_right _ ha
  · cases bs with
    | nil =>
        have hl' : l' = [] ++ .emit frag :: after := by simpa using hbs.symm
        exact (h' [] frag after hl' x hx).mono fun a ha => by simp at ha
    | cons b bs =>
        obtain ⟨rfl, -⟩ := List.cons.inj (hbs.trans (List.cons_append ..))
        exact h before frag bs rfl x hx

/-- A part of the effects that comes first. -/
theorem left {own : Node} {l l' : List (Action Node)} (h : Grounded tu own (l ++ l')) : Grounded tu own l := by
  intro before frag after heq
  exact h before frag (after ++ l') (by rw [heq]; simp)

theorem nil (own : Node) : Grounded tu own [] := by
  intro before frag after heq
  simp at heq

/-- Plain text needs nothing. -/
theorem of_plain {own : Node} {p : Print Node Unit} (h : PlainBlock p) : Grounded tu own p.log := by
  intro before frag after heq x hx
  have hmem : frag ∈ fragsOf p := mem_fragsOf (by rw [heq]; exact List.mem_append_right _ List.mem_cons_self)
  cases frag with
  | attr name value =>
      have hattr : (name, value) ∈ attrsOf p := List.mem_filterMap.mpr ⟨_, hmem, rfl⟩
      exact .of_isText (h.text _ hattr x hx)
  | _ => simp [Frag.pieces] at hx

/-- A fragment without pieces. -/
theorem emit {own : Node} {frag : SymFrag Node} (h : frag.pieces = []) :
    Grounded tu own (GccXml.emit frag : Print Node Unit).log := by
  intro before frag' after heq x hx
  have hmem : Action.emit frag' ∈ (GccXml.emit frag : Print Node Unit).log := by
    rw [heq]; exact List.mem_append_right _ List.mem_cons_self
  have he : frag' = frag := by simpa [GccXml.emit] using hmem
  rw [he, h] at hx
  simp at hx

/-- Fragments after the effects that ask for what they show. -/
theorem after {own : Node} {α β : Type} {p : Print Node α} {q : Print Node β} (hp : fragsOf p = [])
    (h : ∀ frag ∈ fragsOf q, ∀ x ∈ frag.pieces, Asked tu own p.log x) : Grounded tu own (p.log ++ q.log) := by
  intro before frag after heq x hx
  rcases List.append_eq_append_iff.mp heq with ⟨as, rfl, hq⟩ | ⟨bs, hbs, hfrag⟩
  · have hmem : frag ∈ fragsOf q := mem_fragsOf (by rw [hq]; exact List.mem_append_right _ List.mem_cons_self)
    exact (h frag hmem x hx).mono fun a ha => List.mem_append_left _ ha
  · cases bs with
    | nil =>
        have hmem : frag ∈ fragsOf q := mem_fragsOf (by rw [List.nil_append] at hfrag; rw [← hfrag]; exact List.mem_cons_self)
        rw [List.append_nil] at hbs
        exact hbs ▸ h frag hmem x hx
    | cons b bs =>
        obtain ⟨rfl, -⟩ := List.cons.inj hfrag
        have hmem : frag ∈ fragsOf p := mem_fragsOf (by rw [hbs]; exact List.mem_append_right _ List.mem_cons_self)
        rw [hp] at hmem
        simp at hmem

theorem when {own : Node} {c : Prop} [Decidable c] {p : Print Node Unit} (h : Grounded tu own p.log) :
    Grounded tu own (Trace.when c p).log := by
  rw [Trace.log_when]
  split
  · exact h
  · exact nil own

theorem whenSome {own : Node} {α : Type} {o : Option α} {f : α → Print Node Unit}
    (h : ∀ a, Grounded tu own (f a).log) : Grounded tu own (Trace.whenSome o f).log := by
  cases o with
  | none => exact nil own
  | some a => exact h a

theorem flatMap {own : Node} {α : Type} {xs : List α} {f : α → List (Action Node)}
    (h : ∀ x ∈ xs, Grounded tu own (f x)) : Grounded tu own (xs.flatMap f) := by
  induction xs with
  | nil => exact nil own
  | cons x xs ih =>
      exact (h x List.mem_cons_self).append (ih fun y hy => h y (List.mem_cons_of_mem _ hy))

end Grounded

/-! ## Every printing function is grounded -/

variable (tu) in
/-- The printing function `p` for the node `own` asks for what it shows. -/
class GroundedBlock (own : Node) (p : Print Node Unit) : Prop where
  grounded : Grounded tu own p.log

namespace GroundedBlock

instance plain (own : Node) (p : Print Node Unit) [h : PlainBlock p] : GroundedBlock tu own p := ⟨.of_plain h⟩

instance when (own : Node) (c : Prop) [Decidable c] (p : Print Node Unit) [h : GroundedBlock tu own p] :
    GroundedBlock tu own (Trace.when c p) := ⟨.when h.grounded⟩

instance whenSome {α : Type} (own : Node) (o : Option α) (f : α → Print Node Unit)
    [h : ∀ a, GroundedBlock tu own (f a)] : GroundedBlock tu own (Trace.whenSome o f) :=
  ⟨.whenSome fun a => (h a).grounded⟩

theorem seq {own : Node} {p : Print Node Unit} {f : Unit → Print Node Unit} (hp : GroundedBlock tu own p)
    (hf : ∀ u, GroundedBlock tu own (f u)) : GroundedBlock tu own (p >>= f) :=
  ⟨hp.grounded.append (hf ()).grounded⟩

instance each {α : Type} (own : Node) (xs : List α) (f : α → Print Node Unit)
    [h : ∀ a, GroundedBlock tu own (f a)] : GroundedBlock tu own (Trace.each xs f) :=
  ⟨.flatMap fun a _ => (h a).grounded⟩

instance startTag (own : Node) (indent : Nat) (tag : String) :
    GroundedBlock tu own (emit (.startTag indent tag)) := ⟨.emit rfl⟩

instance endStartTag (own : Node) : GroundedBlock tu own (emit .endStartTag) := ⟨.emit rfl⟩

instance emptyTag (own : Node) : GroundedBlock tu own (emit .emptyTag) := ⟨.emit rfl⟩

instance endTag (own : Node) (indent : Nat) (tag : String) : GroundedBlock tu own (emit (.endTag indent tag)) :=
  ⟨.emit rfl⟩

instance blanks (own : Node) (count : Nat) : GroundedBlock tu own (emit (.blanks count)) := ⟨.emit rfl⟩

/-- Fragments that show what was requested right before them. -/
theorem afterRequests {own : Node} {α : Type} {p : Print Node α} {f : α → Print Node Unit} (hp : fragsOf p = [])
    (h : ∀ frag ∈ fragsOf (f p.value), ∀ x ∈ frag.pieces, x.file? = none ∧
      ∀ r, x.node? = some r → ∃ m c, (m, c) ∈ requestsOf p ∧ answer tu m = some r) :
    GroundedBlock tu own (p >>= f) := by
  refine ⟨.after hp fun frag hfrag x hx => ⟨fun r hr => ?_, fun g hg => ?_⟩⟩
  · obtain ⟨m, c, hm, ha⟩ := (h frag hfrag x hx).2 r hr
    obtain ⟨a, hmem, he⟩ := List.mem_filterMap.mp hm
    cases a with
    | addNode m' c' => cases he; exact Or.inr ⟨m, c, hmem, ha⟩
    | emit frag => cases he
    | queueFile name => cases he
  · rw [(h frag hfrag x hx).1] at hg; cases hg

/-- An attribute that shows what was requested right before it. -/
theorem ofRequests {own : Node} {α : Type} {p : Print Node α} {name : String} {g : α → List (SymPiece Node)}
    (hp : fragsOf p = [])
    (h : ∀ x ∈ g p.value, x.file? = none ∧
      ∀ r, x.node? = some r → ∃ m c, (m, c) ∈ requestsOf p ∧ answer tu m = some r) :
    GroundedBlock tu own (p >>= fun v => writeAttr name (g v)) := by
  refine .afterRequests hp fun frag hfrag x hx => ?_
  rw [fragsOf_writeAttr, List.mem_singleton] at hfrag
  subst hfrag
  exact h x hx

/-- The same with more to print after the attribute. -/
theorem ofRequestsThen {own : Node} {α : Type} {p : Print Node α} {name : String} {g : α → List (SymPiece Node)}
    {rest : α → Print Node Unit} (hattr : GroundedBlock tu own (p >>= fun v => writeAttr name (g v)))
    (hrest : GroundedBlock tu own (rest p.value)) :
    GroundedBlock tu own (p >>= fun v => do writeAttr name (g v); rest v) := by
  refine ⟨?_⟩
  have hboth := hattr.grounded.append hrest.grounded
  simpa only [Trace.log_bind, List.append_assoc] using hboth

end GroundedBlock

theorem node?_typeRef {t r : Node} (h : (typeRef tu t).node? = some r) :
    ∃ m ∈ idrefTargets tu t, answer tu m = some r := by
  have h : idrefBase tu t = some r := h
  unfold idrefBase at h
  unfold idrefTargets
  cases hname : (tu.tree t).typeName with
  | none => rw [hname] at h; exact ⟨_, List.mem_cons_self, h⟩
  | some name =>
      rw [hname] at h
      dsimp only at h
      split at h
      · exact ⟨name, by simp, h⟩
      · exact ⟨_, List.mem_cons_self, h⟩

/-- What a type reference shows is among what it requests. -/
theorem asked_typeRef {t r : Node} (c : Bool) (h : (typeRef tu t).node? = some r) :
    ∃ m d, (m, d) ∈ (typeTargets tu t).map (·, c) ∧ answer tu m = some r := by
  obtain ⟨m, hm, ha⟩ := node?_typeRef h
  exact ⟨m, c, List.mem_map.mpr ⟨m, List.mem_append_left _ hm, rfl⟩, ha⟩

instance xmlPrintIdAttribute_grounded (n : Node) : GroundedBlock tu n (xmlPrintIdAttribute n) := by
  refine ⟨@Grounded.after _ _ tu n _ _ (pure ()) (xmlPrintIdAttribute n) rfl fun frag hfrag x hx => ?_⟩
  rw [xmlPrintIdAttribute, fragsOf_writeAttr, List.mem_singleton] at hfrag
  subst hfrag
  rw [List.mem_singleton.mp hx]
  exact ⟨fun r hr => Or.inl (Option.some.inj hr).symm, fun f hf => by cases hf⟩

instance xmlPrintLocationAttribute_grounded (own : Node) (file : String) (line : Nat) :
    GroundedBlock tu own (xmlPrintLocationAttribute file line) := by
  refine ⟨@Grounded.after _ _ tu own _ _ (xmlQueueFile file) (do
    writeAttr "location" [.file (xmlGetEncodedStringFromString file), .str ":", .num line]
    writeAttr "file" [.file (xmlGetEncodedStringFromString file)]
    writeAttr "line" [.num line]) rfl fun frag hfrag x hx => ⟨fun r hr => ?_, fun f hf => ?_⟩⟩
  · simp only [fragsOf_bind, fragsOf_writeAttr, List.mem_append, List.mem_singleton] at hfrag
    rcases hfrag with rfl | rfl | rfl <;>
      simp only [Frag.pieces, List.mem_cons, List.not_mem_nil, or_false] at hx
    · rcases hx with rfl | rfl | rfl <;> cases hr
    · rcases hx with rfl; cases hr
    · rcases hx with rfl; cases hr
  · simp only [fragsOf_bind, fragsOf_writeAttr, List.mem_append, List.mem_singleton] at hfrag
    rcases hfrag with rfl | rfl | rfl <;>
      simp only [Frag.pieces, List.mem_cons, List.not_mem_nil, or_false] at hx
    · rcases hx with rfl | rfl | rfl <;> cases hf
      exact List.mem_singleton.mpr rfl
    · rcases hx with rfl; cases hf
      exact List.mem_singleton.mpr rfl
    · rcases hx with rfl; cases hf

instance xmlPrintDeclLocationAttribute_grounded (own d : Node) :
    GroundedBlock tu own (xmlPrintDeclLocationAttribute tu d) := xmlPrintLocationAttribute_grounded _ _ _

instance xmlPrintTypeAttribute_grounded (own t : Node) (c : Bool) :
    GroundedBlock tu own (xmlPrintTypeAttribute tu t c) := by
  refine .ofRequests (fragsOf_xmlPrintTypeIdref tu t c) fun x hx => ?_
  rw [value_xmlPrintTypeIdref, List.mem_singleton] at hx
  subst hx
  rw [requestsOf_xmlPrintTypeIdref]
  exact ⟨rfl, fun r hr => asked_typeRef c hr⟩

instance xmlPrintReturnsAttribute_grounded (own t : Node) (c : Bool) :
    GroundedBlock tu own (xmlPrintReturnsAttribute tu t c) := by
  refine .ofRequests (fragsOf_xmlPrintTypeIdref tu t c) fun x hx => ?_
  rw [value_xmlPrintTypeIdref, List.mem_singleton] at hx
  subst hx
  rw [requestsOf_xmlPrintTypeIdref]
  exact ⟨rfl, fun r hr => asked_typeRef c hr⟩

instance xmlPrintBaseTypeAttribute_grounded (own t : Node) (c : Bool) :
    GroundedBlock tu own (xmlPrintBaseTypeAttribute tu t c) := by
  refine .ofRequests (fragsOf_addNode tu t c) fun x hx => ?_
  rw [value_addNode, List.mem_singleton] at hx
  subst hx
  exact ⟨rfl, fun r hr => ⟨t, c, by simp, hr⟩⟩

theorem namespaceId_grounded (own m : Node) (name : String) :
    GroundedBlock tu own (addNode tu m false >>= fun id => writeAttr name [.id id]) := by
  refine .ofRequests (fragsOf_addNode tu m false) fun x hx => ?_
  rw [value_addNode, List.mem_singleton] at hx
  subst hx
  exact ⟨rfl, fun r hr => ⟨m, false, by simp, hr⟩⟩

instance xmlPrintContextAttribute_grounded (own n : Node) : GroundedBlock tu own (xmlPrintContextAttribute tu n) := by
  have hcontext := @GroundedBlock.ofRequestsThen _ _ tu own _ _ _ _
    (fun _ => Trace.when (tu.typeP (tu.cpDeclContext n)) <|
      writeAttr "access" [.str (if (tu.tree n).treePrivate then "private"
        else if (tu.tree n).treeProtected then "protected" else "public")])
    (namespaceId_grounded own (tu.cpDeclContext n) "context") inferInstance
  exact @GroundedBlock.when _ _ tu own _ _ _ hcontext

/-- A list that skips index 0 shows answers to its requests only. -/
theorem node?_listedIds {ns : List Node} {x : SymPiece Node} (h : x ∈ listedIds tu ns) :
    x.file? = none ∧ ∀ r, x.node? = some r → ∃ m ∈ ns, answer tu m = some r := by
  obtain ⟨m, hm, hx⟩ := List.mem_flatMap.mp h
  unfold listedId at hx
  split at hx
  · simp only [List.mem_cons, List.not_mem_nil, or_false] at hx
    rcases hx with rfl | rfl
    · exact ⟨rfl, fun r hr => ⟨m, hm, hr⟩⟩
    · exact ⟨rfl, fun r hr => by cases hr⟩
  · simp at hx

instance xmlPrintOverridesMethodAttribute_grounded (own d : Node) :
    GroundedBlock tu own (xmlPrintOverridesMethodAttribute tu d) := by
  obtain ⟨hvalue, hrequests, hfrags⟩ :=
    xmlPrintOverridesFuel_spec tu d (tu.rank (tu.cpDeclContext d) + 1) (tu.cpDeclContext d)
  have hattr : GroundedBlock tu own
      (xmlPrintOverrides tu (tu.cpDeclContext d) d >>= fun found => writeAttr "overrides" found.2) := by
    refine .ofRequests hfrags fun x hx => ?_
    rw [xmlPrintOverrides, hvalue] at hx
    obtain ⟨hfile, hnode⟩ := node?_listedIds hx
    refine ⟨hfile, fun r hr => ?_⟩
    obtain ⟨m, hm, ha⟩ := hnode r hr
    rw [xmlPrintOverrides, hrequests]
    exact ⟨m, true, List.mem_map.mpr ⟨m, hm, rfl⟩, ha⟩
  exact @GroundedBlock.when _ _ tu own _ _ _ hattr

instance xmlPrintVirtualMethodAttributes_grounded (own d : Node) :
    GroundedBlock tu own (xmlPrintVirtualMethodAttributes tu d) := by
  unfold xmlPrintVirtualMethodAttributes
  repeat' refine .seq ?_ fun _ => ?_
  all_goals infer_instance

instance xmlPrintThrowAttribute_grounded (own ft : Node) (c : Bool) :
    GroundedBlock tu own (xmlPrintThrowAttribute tu ft c) := by
  refine @GroundedBlock.whenSome _ _ tu _ own _ _ fun raises => ?_
  refine .ofRequests (by simp) fun x hx => ?_
  rcases mem_intersperse hx with rfl | hx
  · exact ⟨rfl, fun r hr => by cases hr⟩
  · simp only [Trace.value_collect, value_xmlPrintTypeIdref, List.mem_map] at hx
    obtain ⟨t, ht, rfl⟩ := hx
    refine ⟨rfl, fun r hr => ?_⟩
    obtain ⟨m, d, hm, ha⟩ := asked_typeRef c hr
    rw [requestsOf_collect]
    exact ⟨m, d, List.mem_flatMap.mpr ⟨t, ht, by rw [requestsOf_xmlPrintTypeIdref]; exact hm⟩, ha⟩

instance xmlPrintBefriendingAttribute_grounded (own : Node) (befriending : List Node) :
    GroundedBlock tu own (xmlPrintBefriendingAttribute tu befriending) := by
  have hattr : GroundedBlock tu own (Trace.collect (listedFriends tu befriending) (addNode tu · false) >>= fun ids =>
      writeAttr "befriending" ((ids.map Piece.id).intersperse (.str " "))) := by
    refine .ofRequests (by simp) fun x hx => ?_
    rcases mem_intersperse hx with rfl | hx
    · exact ⟨rfl, fun r hr => by cases hr⟩
    · simp only [Trace.value_collect, value_addNode, List.map_map, List.mem_map, Function.comp_apply] at hx
      obtain ⟨m, hm, rfl⟩ := hx
      refine ⟨rfl, fun r hr => ⟨m, false, ?_, hr⟩⟩
      rw [requestsOf_collect]
      exact List.mem_flatMap.mpr ⟨m, hm, by simp⟩
  exact @GroundedBlock.when _ _ tu own _ _ _ hattr

/-- Listing the members `ns` requests each of them. -/
theorem mem_requestsOf_listMember {ns : List Node} {m : Node} (hm : m ∈ ns) :
    (m, true) ∈ requestsOf (Trace.collect ns (listMember tu)) := by
  rw [requestsOf_collect]
  exact List.mem_flatMap.mpr ⟨m, hm, by simp⟩

instance xmlPrintNamespaceMembers_grounded (own ns : Node) :
    GroundedBlock tu own (xmlPrintNamespaceMembers tu ns) := by
  refine .ofRequests (by simp) fun x hx => ?_
  have hx : x ∈ listedIds tu (tu.allDecls ns) := by
    simpa [listedIds, List.flatMap_def] using hx
  obtain ⟨hfile, hnode⟩ := node?_listedIds hx
  refine ⟨hfile, fun r hr => ?_⟩
  obtain ⟨m, hm, ha⟩ := hnode r hr
  exact ⟨m, true, mem_requestsOf_listMember hm, ha⟩

instance xmlPrintRecordMembers_grounded (own rt : Node) : GroundedBlock tu own (xmlPrintRecordMembers tu rt) := by
  have hboth : GroundedBlock tu own ((do
      let fields ← Trace.collect (listedFields tu rt) (listMember tu)
      let methods ← Trace.collect (listedMethods tu rt) (listMember tu)
      pure (fields.flatten ++ methods.flatten)) >>= fun ids => writeAttr "members" ids) := by
    refine .ofRequests (by simp) fun x hx => ?_
    have hx : x ∈ listedIds tu (listedFields tu rt ++ listedMethods tu rt) := by
      simpa [listedIds, List.flatMap_def] using hx
    obtain ⟨hfile, hnode⟩ := node?_listedIds hx
    refine ⟨hfile, fun r hr => ?_⟩
    obtain ⟨m, hm, ha⟩ := hnode r hr
    refine ⟨m, true, ?_, ha⟩
    simp only [requestsOf_bind, requestsOf_pure, List.append_nil, List.mem_append]
    exact (List.mem_append.mp hm).imp mem_requestsOf_listMember mem_requestsOf_listMember
  refine ⟨?_⟩
  have hlog := hboth.grounded
  simpa only [xmlPrintRecordMembers, Trace.log_bind, Trace.log_pure, Trace.value_bind, Trace.value_pure,
    List.append_nil, List.append_assoc] using hlog

instance xmlPrintBasesAttribute_grounded (own : Node) (bases : List (BaseBinfo Node)) :
    GroundedBlock tu own (xmlPrintBasesAttribute tu bases) := by
  refine .ofRequests (by simp) fun x hx => ?_
  simp only [Trace.value_collect, Trace.value_bind, value_addNode, Trace.value_pure, ← List.flatMap_def,
    List.mem_flatMap, List.mem_append, List.mem_cons, List.not_mem_nil, or_false] at hx
  obtain ⟨base, hbase, hx | rfl | rfl⟩ := hx
  · cases hacc : base.access <;> rw [hacc] at hx <;> simp [Access.mark] at hx <;> subst hx <;>
      exact ⟨rfl, fun r hr => by cases hr⟩
  · refine ⟨rfl, fun r hr => ⟨base.type, true, ?_, hr⟩⟩
    rw [requestsOf_collect]
    exact List.mem_flatMap.mpr ⟨base, hbase, by simp⟩
  · exact ⟨rfl, fun r hr => by cases hr⟩

instance xmlOutputNamespaceDecl_grounded (n : Node) (c : Bool) : GroundedBlock tu n (xmlOutputNamespaceDecl tu n c) := by
  have halias : GroundedBlock tu n (namespaceAliasAttributes tu n) := by
    have hid := @GroundedBlock.ofRequestsThen _ _ tu n _ _ _ _ (fun _ => do
      xmlPrintMangledAttribute tu n
      xmlPrintDemangledAttribute tu n) (namespaceId_grounded n (realNamespace tu n) "namespace")
      (.seq inferInstance fun _ => inferInstance)
    unfold namespaceAliasAttributes
    exact .seq inferInstance fun _ => .seq inferInstance fun _ => .seq inferInstance fun _ => hid
  have hreal : GroundedBlock tu n (namespaceAttributes tu n c) := by
    unfold namespaceAttributes
    repeat' refine .seq ?_ fun _ => ?_
    all_goals infer_instance
  unfold xmlOutputNamespaceDecl
  split
  · exact .seq inferInstance fun _ => .seq hreal fun _ => inferInstance
  · exact .seq inferInstance fun _ => .seq halias fun _ => inferInstance

instance xmlOutputTypedef_grounded (n : Node) (c : Bool) : GroundedBlock tu n (xmlOutputTypedef tu n c) := by
  unfold xmlOutputTypedef typedefAttributes
  repeat' refine .seq ?_ fun _ => ?_
  all_goals infer_instance

instance xmlOutputArgument_grounded (own : Node) (pd : Option (ParmDecl Node)) (tl : ArgType Node) (c : Bool) :
    GroundedBlock tu own (xmlOutputArgument tu pd tl c) := by
  unfold xmlOutputArgument argumentAttributes
  refine @GroundedBlock.when _ _ tu own _ _ _ ?_
  repeat' refine .seq ?_ fun _ => ?_
  all_goals infer_instance

instance xmlOutputArguments_grounded (own : Node) (pds : List (ParmDecl Node)) (tls : List (ArgType Node))
    (c : Bool) : GroundedBlock tu own (xmlOutputArguments tu pds tls c) := by
  induction tls generalizing pds with
  | nil => cases pds <;> exact .plain own (pure ())
  | cons tl tls ih =>
      cases pds with
      | nil => exact .seq (xmlOutputArgument_grounded own none tl c) fun _ => ih []
      | cons pd pds => exact .seq (xmlOutputArgument_grounded own (some pd) tl c) fun _ => ih pds

instance xmlOutputEllipsis_grounded (own : Node) : GroundedBlock tu own xmlOutputEllipsis := by
  unfold xmlOutputEllipsis
  exact .seq inferInstance fun _ => inferInstance

instance xmlOutputFunctionDecl_grounded (n : Node) (c : Bool) : GroundedBlock tu n (xmlOutputFunctionDecl tu n c) := by
  have hattrs : GroundedBlock tu n (functionAttributes tu n c) := by
    unfold functionAttributes
    repeat' refine .seq ?_ fun _ => ?_
    all_goals infer_instance
  unfold xmlOutputFunctionDecl
  refine .seq inferInstance fun _ => .seq hattrs fun _ => ?_
  dsimp only
  split
  · infer_instance
  · repeat' refine .seq ?_ fun _ => ?_
    all_goals infer_instance

instance xmlOutputVarDecl_grounded (n : Node) (c : Bool) : GroundedBlock tu n (xmlOutputVarDecl tu n c) := by
  unfold xmlOutputVarDecl varDeclAttributes
  repeat' refine .seq ?_ fun _ => ?_
  all_goals infer_instance

instance xmlOutputFieldDecl_grounded (n : Node) (c : Bool) : GroundedBlock tu n (xmlOutputFieldDecl tu n c) := by
  unfold xmlOutputFieldDecl fieldDeclAttributes
  repeat' refine .seq ?_ fun _ => ?_
  all_goals infer_instance

instance xmlOutputBase_grounded (own : Node) (base : BaseBinfo Node) : GroundedBlock tu own (xmlOutputBase tu base) := by
  refine .afterRequests (fragsOf_addNode tu base.type true) fun frag hfrag x hx => ?_
  simp only [baseAttributes, fragsOf_bind, fragsOf_emit, fragsOf_writeAttr, value_addNode, List.mem_append,
    List.mem_singleton] at hfrag
  rcases hfrag with rfl | (rfl | rfl | rfl | rfl) | rfl <;> simp only [Frag.pieces, List.not_mem_nil] at hx <;>
    rw [List.mem_singleton.mp hx]
  · exact ⟨rfl, fun r hr => ⟨base.type, true, by simp, hr⟩⟩
  all_goals exact ⟨rfl, fun r hr => by cases hr⟩

instance xmlOutputRecordType_grounded (n : Node) (c : Bool) : GroundedBlock tu n (xmlOutputRecordType tu n c) := by
  have hattrs : GroundedBlock tu n (recordAttributes tu n c) := by
    unfold recordAttributes
    repeat' refine .seq ?_ fun _ => ?_
    all_goals infer_instance
  unfold xmlOutputRecordType
  refine .seq inferInstance fun _ => .seq hattrs fun _ => ?_
  split
  · infer_instance
  · repeat' refine .seq ?_ fun _ => ?_
    all_goals infer_instance

/-- A type whose element holds the attributes of a grounded block. -/
theorem xmlOutputFunctionType_grounded (n : Node) (c : Bool) : GroundedBlock tu n (xmlOutputFunctionType tu n c) := by
  unfold xmlOutputFunctionType functionTypeAttributes
  repeat' refine .seq ?_ fun _ => ?_
  all_goals infer_instance

theorem xmlOutputMethodType_grounded (n : Node) (c : Bool) : GroundedBlock tu n (xmlOutputMethodType tu n c) := by
  unfold xmlOutputMethodType methodTypeAttributes
  repeat' refine .seq ?_ fun _ => ?_
  all_goals infer_instance

theorem xmlOutputIndirectType_grounded (tag : String) (n : Node) :
    GroundedBlock tu n (xmlOutputIndirectType tu tag n) := by
  unfold xmlOutputIndirectType indirectTypeAttributes
  repeat' refine .seq ?_ fun _ => ?_
  all_goals infer_instance

theorem xmlOutputOffsetType_grounded (n : Node) (c : Bool) : GroundedBlock tu n (xmlOutputOffsetType tu n c) := by
  unfold xmlOutputOffsetType offsetTypeAttributes
  repeat' refine .seq ?_ fun _ => ?_
  all_goals infer_instance

theorem xmlOutputArrayType_grounded (n : Node) (c : Bool) : GroundedBlock tu n (xmlOutputArrayType tu n c) := by
  unfold xmlOutputArrayType arrayTypeAttributes
  repeat' refine .seq ?_ fun _ => ?_
  all_goals infer_instance

theorem xmlOutputUnimplemented_grounded (own t : Node) (dn : Option Node) (hdn : ∀ n ∈ dn, n = own)
    (function : Option String) : GroundedBlock tu own (xmlOutputUnimplemented tu t dn function) := by
  have hid : GroundedBlock tu own (Trace.whenSome dn xmlPrintIdAttribute) := by
    cases dn with
    | none => exact .plain own (pure ())
    | some n => rw [hdn n rfl]; exact xmlPrintIdAttribute_grounded own
  unfold xmlOutputUnimplemented unimplementedAttributes
  repeat' refine .seq ?_ fun _ => ?_
  all_goals infer_instance

theorem xmlOutputEnumeralType_grounded (n : Node) : GroundedBlock tu n (xmlOutputEnumeralType tu n) := by
  have hvalue : ∀ tv : Option String × Node, GroundedBlock tu n (xmlOutputEnumValue tu tv.1 tv.2) := by
    intro tv
    have hother : GroundedBlock tu n (xmlOutputUnimplemented tu tv.2 none (some "xml_output_enumeral_type")) :=
      xmlOutputUnimplemented_grounded n tv.2 none (by simp) _
    unfold xmlOutputEnumValue enumValueAttributes
    split
    · repeat' refine .seq ?_ fun _ => ?_
      all_goals infer_instance
    · exact .seq inferInstance fun _ => hother
  unfold xmlOutputEnumeralType enumeralTypeAttributes
  repeat' refine .seq ?_ fun _ => ?_
  all_goals infer_instance

theorem xmlOutputFundamentalType_grounded (n : Node) : GroundedBlock tu n (xmlOutputFundamentalType tu n) := by
  unfold xmlOutputFundamentalType fundamentalTypeAttributes
  repeat' refine .seq ?_ fun _ => ?_
  all_goals infer_instance

theorem xmlOutputVariant_grounded (n : Node) (c : Bool) : GroundedBlock tu n (xmlOutputVariant tu n c) := by
  refine .afterRequests (fragsOf_xmlGetIdref tu n c) fun frag hfrag x hx => ?_
  have hbase : ∀ r, idrefBase tu n = some r → ∃ m d, (m, d) ∈ requestsOf (xmlGetIdref tu n c) ∧ answer tu m = some r := by
    intro r hr
    obtain ⟨m, hm, ha⟩ : ∃ m ∈ idrefTargets tu n, answer tu m = some r := node?_typeRef hr
    exact ⟨m, c, by rw [requestsOf_xmlGetIdref]; exact List.mem_map.mpr ⟨m, hm, rfl⟩, ha⟩
  rw [value_xmlGetIdref] at hfrag
  simp only [fragsOf_when, fragsOf_bind, fragsOf_emit, (cvQualifiedTypeAttributes_block n _ _).frags] at hfrag
  split at hfrag
  · simp only [List.mem_append, List.mem_singleton, List.mem_map] at hfrag
    rcases hfrag with rfl | ⟨a, ha, rfl⟩ | rfl <;> simp only [Frag.pieces, List.not_mem_nil, Frag.ofAttr] at hx
    simp only [cvQualifiedTypeAttributes, flagAttribute, attrsOf_bind, attrsOf_writeAttr, attrsOf_when,
      List.mem_append, List.mem_singleton] at ha
    rcases ha with rfl | rfl | ha
    · rw [List.mem_singleton.mp hx]; exact ⟨rfl, hbase⟩
    · rw [List.mem_singleton.mp hx]; exact ⟨rfl, hbase⟩
    · have htext : a.2 = [.str "1"] := by
        rcases ha with ha | ha | ha <;> split at ha <;> simp_all
      rw [htext, List.mem_singleton] at hx
      subst hx
      exact ⟨rfl, fun r hr => by cases hr⟩
  · simp at hfrag

/-- **Every node is printed grounded.** -/
theorem xmlDumpTreeNode_grounded (n : Node) (c : Bool) : Grounded tu n (xmlDumpTreeNode tu n c).log := by
  have hmain : GroundedBlock tu n (xmlOutputMainVariant tu n c) := by
    unfold xmlOutputMainVariant
    split
    case h_4 => exact xmlOutputArrayType_grounded n c
    case h_5 | h_6 => exact xmlOutputIndirectType_grounded _ n
    case h_7 => exact xmlOutputFunctionType_grounded n c
    case h_8 => exact xmlOutputMethodType_grounded n c
    case h_9 => exact xmlOutputOffsetType_grounded n c
    case h_10 => exact xmlOutputEnumeralType_grounded n
    -- structs and unions have an instance, and the last case prints nothing
    case h_1 | h_2 | h_3 | h_17 => infer_instance
    all_goals exact xmlOutputFundamentalType_grounded n
  have hcv : GroundedBlock tu n (xmlOutputCvQualifiedType tu n c) := by
    unfold xmlOutputCvQualifiedType
    split
    · exact hmain
    · exact xmlOutputVariant_grounded n c
  have hnode : GroundedBlock tu n (xmlDumpTreeNode tu n c) := by
    unfold xmlDumpTreeNode
    split
    case h_22 => exact xmlOutputUnimplemented_grounded n n (some n) (by simp) none
    all_goals infer_instance
  exact hnode.grounded

/-! ## The document of a run -/

/-- Fill in the indices of the state `s`. -/
def DumpInfo.fillFrag (s : DumpInfo Node) (frag : SymFrag Node) : OutFrag Node := frag.fill s.indexOf s.fileIndexOf

/-- What the piece shows has its index. -/
def Known (s : DumpInfo Node) (x : SymPiece Node) : Prop :=
  (∀ r, x.node? = some r → s.index r ≠ 0) ∧ ∀ f, x.file? = some f → ∃ i, s.fileNodes f = some i

omit [DecidableEq Node] in
theorem Known.extends {s s' : DumpInfo Node} {x : SymPiece Node} (h : Known s x) (hext : Extends s s') :
    Known s' x :=
  ⟨fun r hr => hext.index_ne_zero (h.1 r hr), fun f hf => (h.2 f hf).imp fun i hi => hext.file f i hi⟩

omit [DecidableEq Node] in
/-- The index of a piece that shows something known stays. -/
theorem fill_eq_of_known {s s' : DumpInfo Node} {x : SymPiece Node} (h : Known s x) (hext : Extends s s') :
    x.fill s'.indexOf s'.fileIndexOf = x.fill s.indexOf s.fileIndexOf := by
  have hindex : ∀ i : Option Node, (∀ r, i = some r → s.index r ≠ 0) → s'.indexOf i = s.indexOf i := by
    intro i hi
    cases i with
    | none => rfl
    | some r => exact hext.index r (hi r rfl)
  cases x with
  | str text => rfl
  | num value => rfl
  | ptr address => rfl
  | file f =>
      obtain ⟨i, hi⟩ := h.2 f rfl
      simp [Piece.fill, fileIndexOf, hi, hext.file f i hi]
  | id i => rw [Piece.fill, Piece.fill, hindex i h.1]
  | typeId t i q => rw [Piece.fill, Piece.fill, hindex i h.1]

omit [DecidableEq Node] in
theorem fillFrag_eq_of_known {s s' : DumpInfo Node} {frag : SymFrag Node} (h : ∀ x ∈ frag.pieces, Known s x)
    (hext : Extends s s') : s'.fillFrag frag = s.fillFrag frag := by
  cases frag with
  | attr name value =>
      have hvalue : value.map (Piece.fill s'.indexOf s'.fileIndexOf) =
          value.map (Piece.fill s.indexOf s.fileIndexOf) :=
        List.map_congr_left fun x hx => fill_eq_of_known (h x hx) hext
      simp only [fillFrag, Frag.fill, hvalue]
  | _ => rfl

/-- A file that was queued has an index. -/
theorem exists_fileNodes_execAll {s : DumpInfo Node} (hc : s.Coherent) {log : List (Action Node)} {f : String}
    (hf : .queueFile f ∈ log) : ∃ i, (s.execAll tu log).fileNodes f = some i := by
  induction log generalizing s with
  | nil => simp at hf
  | cons a log ih =>
      have hexec : (s.exec tu a).Coherent := hc.execAll [a]
      rcases List.mem_cons.mp hf with rfl | hf
      · have hnow : ∃ i, (s.queueFile f).fileNodes f = some i := by
          unfold queueFile
          cases hfile : s.fileNodes f with
          | some i => exact ⟨i, hfile⟩
          | none => exact ⟨s.fileIndex, by simp⟩
        obtain ⟨i, hi⟩ := hnow
        have hlater : Extends (s.queueFile f) ((s.queueFile f).execAll tu log) := .execAll (hc.queueFile f) log
        exact ⟨i, hlater.file f i hi⟩
      · exact ih hexec hf

/-- What was asked for is known afterwards. -/
theorem Asked.known {own : Node} {log : List (Action Node)} {x : SymPiece Node} (h : Asked tu own log x)
    {s : DumpInfo Node} (hc : s.Coherent) (hown : s.index own ≠ 0) : Known (s.execAll tu log) x := by
  refine ⟨fun r hr => ?_, fun f hf => exists_fileNodes_execAll hc (h.2 f hf)⟩
  rcases h.1 r hr with rfl | ⟨m, c, hm, ha⟩
  · exact (Extends.execAll hc log).index_ne_zero hown
  · exact (execAll_of_mem hc hm (answer_mem_registered tu ha c)).1

omit [DecidableEq Node] in
theorem Known.of_isText {s : DumpInfo Node} {x : SymPiece Node} (h : x.isText = true) : Known s x := by
  refine ⟨fun r hr => ?_, fun f hf => ?_⟩ <;> cases x <;> simp_all [Piece.isText, Piece.node?, Piece.file?]

theorem file_register (l : List (Node × Bool)) (s : DumpInfo Node) : (s.register l).file = s.file := by
  induction l generalizing s with
  | nil => rfl
  | cons r l ih => exact (ih _).trans (file_addNodeReal s r.1 r.2)

/-- One effect writes its fragment, if it has one. -/
theorem file_exec (s : DumpInfo Node) (a : Action Node) :
    (s.exec tu a).file = s.file ++ a.frag?.toList.map s.fillFrag := by
  cases a with
  | emit frag => rfl
  | addNode m c =>
      have hsame : (s.exec tu (.addNode m c)).file = s.file := file_register _ _
      rw [hsame]
      simp [Action.frag?]
  | queueFile name =>
      have hsame : (s.exec tu (.queueFile name)).file = s.file := by
        show (s.queueFile name).file = s.file
        obtain ⟨_, _, _, heq⟩ := queueFile_eq s name
        rw [heq]
      rw [hsame]
      simp [Action.frag?]

/-- **What effects write** that only show what is known at the time: their fragments, with the indices of the state
    they lead to. -/
theorem file_execAll {log : List (Action Node)} {s : DumpInfo Node} (hc : s.Coherent)
    (hg : ∀ before frag after, log = before ++ .emit frag :: after → ∀ x ∈ frag.pieces,
      Known (s.execAll tu before) x) :
    (s.execAll tu log).file = s.file ++ (log.filterMap Action.frag?).map (s.execAll tu log).fillFrag ∧
      ∀ frag ∈ log.filterMap Action.frag?, ∀ x ∈ frag.pieces, Known (s.execAll tu log) x := by
  induction log using List.reverseRecOn with
  | nil => exact ⟨by simp, by simp⟩
  | append_singleton log a ih =>
      obtain ⟨hfile, hknown⟩ := ih fun before frag after heq =>
        hg before frag (after ++ [a]) (by rw [heq]; simp)
      have hcl : (s.execAll tu log).Coherent := hc.execAll log
      have hext : Extends (s.execAll tu log) (s.execAll tu (log ++ [a])) := by
        rw [execAll_append]; exact .execAll hcl [a]
      have hasked : ∀ frag ∈ a.frag?, ∀ x ∈ frag.pieces, Known (s.execAll tu log) x := by
        intro frag hfrag
        cases a with
        | emit frag' =>
            obtain rfl := Option.some.inj hfrag
            exact hg log frag' [] rfl
        | addNode | queueFile => cases hfrag
      have hall : ∀ frag ∈ (log ++ [a]).filterMap Action.frag?, ∀ x ∈ frag.pieces, Known (s.execAll tu log) x := by
        intro frag hfrag
        rw [List.filterMap_append, List.mem_append] at hfrag
        obtain hfrag | hfrag := hfrag
        · exact hknown frag hfrag
        · exact hasked frag (by simpa using hfrag)
      -- what is known is shown alike before and after the last effect
      have hfill : ((log ++ [a]).filterMap Action.frag?).map (s.execAll tu (log ++ [a])).fillFrag =
          ((log ++ [a]).filterMap Action.frag?).map (s.execAll tu log).fillFrag :=
        List.map_congr_left fun frag hfrag => fillFrag_eq_of_known (hall frag hfrag) hext
      have hstep : s.execAll tu (log ++ [a]) = (s.execAll tu log).exec tu a := by rw [execAll_append]; rfl
      refine ⟨?_, fun frag hfrag x hx => (hall frag hfrag x hx).extends hext⟩
      have hlast : [a].filterMap Action.frag? = a.frag?.toList := by
        cases ha : a.frag? with
        | none => simp [ha]
        | some frag => simp [ha]
      rw [hfill, hstep, file_exec, hfile, List.filterMap_append, List.map_append, List.append_assoc, hlast]

variable (tu) in
/-- The fragments of the document before its last part, for the nodes printed so far. -/
def documentFrags (s : DumpInfo Node) : List (SymFrag Node) :=
  documentHead tu ++ s.dumped.flatMap fun d => entryFrags (nodeEntry tu d.1 d.2)

/-- The document so far is that of the printed nodes, with the indices of this moment, which are there. -/
structure Written (tu : TranslationUnit Node) (s : DumpInfo Node) : Prop where
  file : s.file = (documentFrags tu s).map s.fillFrag
  known : ∀ frag ∈ documentFrags tu s, ∀ x ∈ frag.pieces, Known s x

omit [DecidableEq Node] in
/-- The start of the document is plain text. -/
theorem documentHead_text : ∀ frag ∈ documentHead tu, ∀ x ∈ frag.pieces, x.isText = true := by
  intro frag hfrag x hx
  unfold documentHead at hfrag
  cases hversion : tu.gccxmlVersionFull with
  | none =>
      simp only [hversion, List.append_nil, List.cons_append, List.nil_append, List.mem_cons, List.not_mem_nil,
        or_false] at hfrag
      rcases hfrag with rfl | rfl | rfl | rfl <;> simp [Frag.pieces] at hx
      rw [hx]; rfl
  | some version =>
      simp only [hversion, List.cons_append, List.nil_append, List.mem_cons, List.not_mem_nil, or_false] at hfrag
      rcases hfrag with rfl | rfl | rfl | rfl | rfl <;> simp [Frag.pieces] at hx
      · rw [hx]; rfl
      · rw [hx]; rfl

theorem Written.start (starts : List Node) : Written tu (startDump tu starts) := by
  have hlog : (startLog tu starts).filterMap Action.frag? = documentHead tu := by
    simp [startLog, Action.frag?, List.filterMap_append, List.filterMap_map, Function.comp_def]
  have hdumped : (startDump tu starts).dumped = [] := dumped_execAll _ _
  have hfrags : documentFrags tu (startDump tu starts) = documentHead tu := by
    simp [documentFrags, hdumped]
  have hwrite := @file_execAll _ _ tu (startLog tu starts) _ Coherent.init fun before frag after heq x hx => by
    have hmem : frag ∈ documentHead tu := by
      rw [← hlog]
      exact List.mem_filterMap.mpr ⟨_, by rw [heq]; exact List.mem_append_right _ List.mem_cons_self, rfl⟩
    exact .of_isText (documentHead_text frag hmem x hx)
  rw [hlog] at hwrite
  exact ⟨by rw [hfrags]; exact hwrite.1, by rw [hfrags]; exact hwrite.2⟩

theorem Written.round {s : DumpInfo Node} (h : Written tu s) (hc : s.Coherent) {n : Node} {rest : List Node}
    (hq : s.queue = n :: rest) : Written tu (xmlDumpNode tu { s with queue := rest } n) := by
  have hn : s.index n ≠ 0 := hc.queued n (by rw [hq]; exact List.mem_cons_self)
  have hpop := hc.pop hq (s.complete n)
  have hext : Extends { s with queue := rest, dumped := s.dumped ++ [(n, s.complete n)] }
      (xmlDumpNode tu { s with queue := rest } n) := .execAll hpop _
  have hwrite := @file_execAll _ _ tu (xmlDumpTreeNode tu n (s.complete n)).log _ hpop
    fun before frag after heq x hx => ((xmlDumpTreeNode_grounded n (s.complete n)) before frag after heq x hx).known
      hpop hn
  have hentry : (xmlDumpTreeNode tu n (s.complete n)).log.filterMap Action.frag? =
      entryFrags (nodeEntry tu n (s.complete n)) := fragsOf_xmlDumpTreeNode tu n (s.complete n)
  rw [hentry] at hwrite
  have hfrags : documentFrags tu (xmlDumpNode tu { s with queue := rest } n) =
      documentFrags tu s ++ entryFrags (nodeEntry tu n (s.complete n)) := by
    unfold documentFrags
    rw [dumped_xmlDumpNode, List.flatMap_append, List.append_assoc, List.flatMap_singleton]
    rfl
  have hold : (documentFrags tu s).map s.fillFrag =
      (documentFrags tu s).map (xmlDumpNode tu { s with queue := rest } n).fillFrag :=
    List.map_congr_left fun frag hfrag => (fillFrag_eq_of_known (h.known frag hfrag) ⟨hext.index, hext.complete,
      hext.file⟩).symm
  refine ⟨?_, fun frag hfrag x hx => ?_⟩
  · rw [hfrags, List.map_append, ← hold, ← h.file]
    exact hwrite.1
  · rw [hfrags] at hfrag
    rcases List.mem_append.mp hfrag with hfrag | hfrag
    · exact (h.known frag hfrag x hx).extends ⟨hext.index, hext.complete, hext.file⟩
    · exact hwrite.2 frag hfrag x hx

variable {starts : List Node}

theorem PhasesEnd.written {s₁ s₂ : DumpInfo Node} (h : PhasesEnd tu starts s₁ s₂) : Written tu s₂ := by
  let P : DumpInfo Node → Prop := fun s => s.Coherent ∧ Written tu s
  have hround : ∀ s n rest, P s → s.queue = n :: rest → P (xmlDumpNode tu { s with queue := rest } n) :=
    fun s n rest hs hq => ⟨hs.1.xmlDumpNode hq, hs.2.round hs.1 hq⟩
  obtain ⟨⟨hc₁, hw₁⟩, hq₁⟩ := xmlDump_induct hround ⟨startDump_coherent starts, .start starts⟩ h.first
  have hmid : P (startIncomplete tu s₁) := ⟨startIncomplete_coherent hc₁ hq₁, hw₁.file, hw₁.known⟩
  exact (xmlDump_induct hround hmid h.second).1.2

/-- **The document**: the head, the entry of each printed node with the indices of the end of the run, the files and
    the end of the root element. -/
theorem PhasesEnd.document {s₁ s₂ : DumpInfo Node} (h : PhasesEnd tu starts s₁ s₂) :
    (finishDump s₂).file =
      ((documentHead tu).map s₂.fillFrag ++
          s₂.dumped.flatMap fun d => (entryFrags (nodeEntry tu d.1 d.2)).map s₂.fillFrag) ++
        (s₂.fileQueue.flatMap fun f =>
          [.startTag 2 "File", .attr "id" [.file f.2], .attr "name" [.str f.1], .emptyTag]) ++
        [.endTag 0 "GCC_XML"] := by
  have hfile := h.written.file
  simp only [documentFrags, List.map_append, List.map_flatMap] at hfile
  show (s₂.file ++ _) ++ _ = _
  rw [hfile]
  rfl

end

end GccXml
