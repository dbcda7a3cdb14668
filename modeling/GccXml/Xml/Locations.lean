import GccXml.Xml.WellFormed

namespace GccXml

/-! # `Xml.Locations` — the locations that printing a node writes

A location is printed for a declaration in a file: the file is queued, and the attributes `location` and `file` refer
to it. Nothing else queues a file or refers to one, so the files that printing a node queues and refers to are those of
the declarations whose locations it prints, in this order.

`Locates files p` says this of the printing function `p`: the names it queues are `files`, escaped, and so are those
that its `location` attributes and its `file` attributes refer to. It is a class, since an instance for a function is
found from those of its parts: a sequence locates the files of the one part and then those of the other, and a function
that prints no location locates none.

The instances go through the functions of `Xml.Print` and `Xml.Output` in their order, and the last one gives for a
node the list `locatedFiles`: for a class the files of its own declaration, for a function those of its arguments too.
The table of the files of a run is built from these lists in `FileTable`. -/

/-! ## What a printing function queues and refers to -/

section
variable {Node ι φ : Type}

/-- The file that a piece refers to. -/
def Piece.fileRef? : Piece Node ι φ → Option φ
  | .file f => some f
  | _ => none

/-- The files that a fragment refers to in the attribute `name`. -/
def Frag.fileRefs (name : String) : Frag Node ι φ → List φ
  | .attr label value => if label = name then value.filterMap Piece.fileRef? else []
  | _ => []

/-- **The file ids of a document** in the attributes `name`, in order. -/
def fileRefs (name : String) (doc : List (Frag Node ι φ)) : List φ := doc.flatMap (Frag.fileRefs name)

@[simp] theorem fileRefs_nil (name : String) : fileRefs name ([] : List (Frag Node ι φ)) = [] := rfl
@[simp] theorem fileRefs_append (name : String) (doc doc' : List (Frag Node ι φ)) :
    fileRefs name (doc ++ doc') = fileRefs name doc ++ fileRefs name doc' := List.flatMap_append
theorem fileRefs_flatMap {α : Type} (name : String) (xs : List α) (f : α → List (Frag Node ι φ)) :
    fileRefs name (xs.flatMap f) = xs.flatMap fun x => fileRefs name (f x) := List.flatMap_assoc ..

end

section
variable {Node : Type}

/-- The file name that an effect queues, if it does. -/
def Action.queued? : Action Node → Option String
  | .queueFile name => some name
  | _ => none

/-- The file names that a printing function queues. -/
def queuedFiles {α : Type} (p : Print Node α) : List String := p.log.filterMap Action.queued?

/-- **The printing function `p` prints the locations of declarations in `files`**, in this order: it queues each file
    and refers to it in `location` and in `file`, and it queues and refers to no other. -/
class Locates {α : Type} (files : List String) (p : Print Node α) : Prop where
  queued : queuedFiles p = files.map xmlEscapeString
  shown : ∀ name ∈ ["location", "file"], fileRefs name (fragsOf p) = files.map xmlEscapeString

namespace Locates

variable {α β : Type} {files files' : List String}

/-- One thing after another, with the value of the first. -/
theorem after {p : Print Node α} {f : α → Print Node β} (hp : Locates files p) (hf : Locates files' (f p.value)) :
    Locates (files ++ files') (p >>= f) := by
  refine ⟨?_, fun name hname => ?_⟩
  · have hlog : queuedFiles (p >>= f) = queuedFiles p ++ queuedFiles (f p.value) := by simp [queuedFiles]
    rw [hlog, hp.queued, hf.queued, List.map_append]
  · rw [fragsOf_bind, fileRefs_append, hp.shown name hname, hf.shown name hname, List.map_append]

/-- Something without locations first, with the value it leads to. -/
theorem follow {p : Print Node α} {f : α → Print Node β} (hp : Locates [] p) (hf : Locates files (f p.value)) :
    Locates files (p >>= f) := hp.after hf

/-- Something without locations first. -/
theorem skip {p : Print Node α} {f : α → Print Node β} (hp : Locates [] p) (hf : ∀ a, Locates files (f a)) :
    Locates files (p >>= f) := hp.after (hf _)

/-- Nothing with a location afterwards. -/
theorem last {p : Print Node α} {f : α → Print Node β} (hp : Locates files p) (hf : ∀ a, Locates [] (f a)) :
    Locates files (p >>= f) := by
  simpa using hp.after (hf p.value)

instance bind (p : Print Node α) (f : α → Print Node β) [hp : Locates [] p] [hf : ∀ a, Locates [] (f a)] :
    Locates [] (p >>= f) := hp.skip hf

instance nothing (a : α) : Locates [] (pure a : Print Node α) := ⟨rfl, fun _ _ => rfl⟩

instance when (c : Prop) [Decidable c] (p : Print Node Unit) [hp : Locates [] p] : Locates [] (Trace.when c p) := by
  unfold Trace.when
  split
  · exact hp
  · exact nothing ()

instance whenSome (o : Option α) (f : α → Print Node Unit) [h : ∀ a, Locates [] (f a)] :
    Locates [] (Trace.whenSome o f) := by
  cases o with
  | none => exact nothing ()
  | some a => exact h a

theorem of_each {xs : List α} {f : α → Print Node Unit} {files : α → List String} (h : ∀ x, Locates (files x) (f x)) :
    Locates (xs.flatMap files) (Trace.each xs f) := by
  induction xs with
  | nil => exact nothing ()
  | cons x xs ih =>
      rw [Trace.each_cons, List.flatMap_cons]
      exact (h x).after ih

instance each (xs : List α) (f : α → Print Node Unit) [h : ∀ a, Locates [] (f a)] : Locates [] (Trace.each xs f) := by
  have hnone : xs.flatMap (fun _ => ([] : List String)) = [] := by simp
  rw [← hnone]
  exact of_each h

instance collect (xs : List α) (f : α → Print Node β) [h : ∀ a, Locates [] (f a)] : Locates [] (Trace.collect xs f) := by
  induction xs with
  | nil => exact nothing []
  | cons x xs ih =>
      rw [Trace.collect_cons]
      exact .skip (h x) fun _ => .skip ih fun _ => nothing _

instance ofDiscard (p : Print Node α) [hp : Locates [] p] : Locates [] (discard p) :=
  ⟨by simpa [queuedFiles] using hp.queued, fun name hname => by simpa using hp.shown name hname⟩

theorem of_emit {frag : SymFrag Node} (h : ∀ name, frag.fileRefs name = []) : Locates [] (emit frag) :=
  ⟨rfl, fun name _ => by simpa [fileRefs] using h name⟩

instance startTag (indent : Nat) (tag : String) : Locates [] (emit (.startTag indent tag : SymFrag Node)) :=
  of_emit fun _ => rfl
instance endStartTag : Locates [] (emit (.endStartTag : SymFrag Node)) := of_emit fun _ => rfl
instance emptyTag : Locates [] (emit (.emptyTag : SymFrag Node)) := of_emit fun _ => rfl
instance endTag (indent : Nat) (tag : String) : Locates [] (emit (.endTag indent tag : SymFrag Node)) :=
  of_emit fun _ => rfl
instance blanks (count : Nat) : Locates [] (emit (.blanks count : SymFrag Node)) := of_emit fun _ => rfl

/-- An attribute without a file. -/
theorem of_value {name : String} {value : List (SymPiece Node)} (h : ∀ x ∈ value, x.fileRef? = none) :
    Locates [] (writeAttr name value) := by
  have hnone : value.filterMap Piece.fileRef? = [] := List.filterMap_eq_nil_iff.mpr h
  exact of_emit fun label => by simp [Frag.fileRefs, hnone]

instance str (name text : String) : Locates [] (writeAttr name [.str text] : Print Node Unit) :=
  of_value (by simp [Piece.fileRef?])
instance num (name : String) (i : Int) : Locates [] (writeAttr name [.num i] : Print Node Unit) :=
  of_value (by simp [Piece.fileRef?])
instance ptr (name : String) (address : Nat) : Locates [] (writeAttr name [.ptr address] : Print Node Unit) :=
  of_value (by simp [Piece.fileRef?])
instance id (name : String) (i : Option Node) : Locates [] (writeAttr name [.id i] : Print Node Unit) :=
  of_value (by simp [Piece.fileRef?])
instance typeId (name : String) (t : Node) (i : Option Node) (q : Quals) :
    Locates [] (writeAttr name [.typeId t i q] : Print Node Unit) :=
  of_value (by simp [Piece.fileRef?])

end Locates

/-! ### Attributes -/

instance flagAttribute_locates (name : String) (flag : Bool) : Locates [] (flagAttribute name flag : Print Node Unit) :=
  Locates.when _ _

instance constantAttribute_locates (name : String) (c : Option IntCst) :
    Locates [] (constantAttribute name c : Print Node Unit) := Locates.whenSome _ _

instance xmlPrintEndlineAttribute_locates (body : Body) : Locates [] (xmlPrintEndlineAttribute body : Print Node Unit) :=
  Locates.whenSome _ _

instance xmlPrintIdAttribute_locates (n : Node) : Locates [] (xmlPrintIdAttribute n) := Locates.id _ _

instance xmlPrintNameAttribute_locates (n : Option String) : Locates [] (xmlPrintNameAttribute n : Print Node Unit) :=
  Locates.str _ _

instance xmlPrintDefaultArgumentAttribute_locates (t : String) :
    Locates [] (xmlPrintDefaultArgumentAttribute t : Print Node Unit) := Locates.str _ _

instance xmlPrintInitAttribute_locates (t : Option Initial) : Locates [] (xmlPrintInitAttribute t : Print Node Unit) :=
  Locates.whenSome _ _

theorem Piece.fileRef?_of_isText {x : SymPiece Node} (h : x.isText = true) : x.fileRef? = none := by
  cases x <;> simp_all [isText, fileRef?]

instance xmlPrintAttributesAttribute_locates (as bs : List Attribute) :
    Locates [] (xmlPrintAttributesAttribute as bs : Print Node Unit) := by
  have hplain := (xmlPrintAttributesAttribute_plain as bs : PlainBlock (xmlPrintAttributesAttribute as bs : Print Node Unit))
  unfold xmlPrintAttributesAttribute at hplain ⊢
  split
  · exact Locates.nothing ()
  · rename_i a rest heq
    rw [heq] at hplain
    exact Locates.of_value fun x hx => Piece.fileRef?_of_isText (hplain.text _ (List.mem_singleton_self _) x hx)

/-- A declaration at a line of `file`. -/
theorem xmlPrintLocationAttribute_locates (file : String) (line : Nat) :
    Locates [file] (xmlPrintLocationAttribute file line : Print Node Unit) := by
  refine ⟨rfl, fun name hname => ?_⟩
  simp only [List.mem_cons, List.not_mem_nil, or_false] at hname
  rcases hname with rfl | rfl <;> rfl

section
variable (tu : TranslationUnit Node)

theorem xmlPrintDeclLocationAttribute_locates (d : Node) :
    Locates [(tu.tree d).declSourceFile] (xmlPrintDeclLocationAttribute tu d) := xmlPrintLocationAttribute_locates _ _

instance xmlPrintMangledAttribute_locates (n : Node) : Locates [] (xmlPrintMangledAttribute tu n) := Locates.whenSome _ _
instance xmlPrintDemangledAttribute_locates (n : Node) : Locates [] (xmlPrintDemangledAttribute tu n) :=
  Locates.whenSome _ _
instance xmlPrintMutableAttribute_locates (n : Node) : Locates [] (xmlPrintMutableAttribute tu n) :=
  flagAttribute_locates _ _
instance xmlPrintExplicitAttribute_locates (d : Node) : Locates [] (xmlPrintExplicitAttribute tu d) :=
  flagAttribute_locates _ _
instance xmlPrintConstMethodAttribute_locates (d : Node) : Locates [] (xmlPrintConstMethodAttribute tu d) :=
  flagAttribute_locates _ _
instance xmlPrintStaticMethodAttribute_locates (d : Node) : Locates [] (xmlPrintStaticMethodAttribute tu d) :=
  flagAttribute_locates _ _
instance xmlPrintStaticAttribute_locates (d : Node) : Locates [] (xmlPrintStaticAttribute tu d) :=
  flagAttribute_locates _ _
instance xmlPrintExternAttribute_locates (d : Node) : Locates [] (xmlPrintExternAttribute tu d) :=
  flagAttribute_locates _ _
instance xmlPrintInlineAttribute_locates (d : Node) : Locates [] (xmlPrintInlineAttribute tu d) :=
  flagAttribute_locates _ _
instance xmlPrintFunctionExternAttribute_locates (d : Node) : Locates [] (xmlPrintFunctionExternAttribute tu d) :=
  flagAttribute_locates _ _
instance xmlPrintArtificialAttribute_locates (d : Node) : Locates [] (xmlPrintArtificialAttribute tu d) :=
  flagAttribute_locates _ _
instance xmlPrintIncompleteAttribute_locates (t : Node) : Locates [] (xmlPrintIncompleteAttribute tu t) :=
  flagAttribute_locates _ _
instance xmlPrintAbstractAttribute_locates (t : Node) : Locates [] (xmlPrintAbstractAttribute tu t) :=
  flagAttribute_locates _ _
instance xmlPrintSizeAttribute_locates (t : Node) : Locates [] (xmlPrintSizeAttribute tu t) :=
  constantAttribute_locates _ _
instance xmlPrintAlignAttribute_locates (t : Node) : Locates [] (xmlPrintAlignAttribute tu t) := Locates.num _ _
instance xmlPrintOffsetAttribute_locates (d : Node) : Locates [] (xmlPrintOffsetAttribute tu d) := Locates.whenSome _ _
instance xmlPrintBitsAttribute_locates (d : Node) : Locates [] (xmlPrintBitsAttribute tu d) := Locates.when _ _
instance xmlPrintArrayAttributes_locates (t : Node) : Locates [] (xmlPrintArrayAttributes tu t) := Locates.bind _ _

variable [DecidableEq Node]

instance addNode_locates (n : Node) (c : Bool) : Locates [] (addNode tu n c) := ⟨rfl, fun _ _ => rfl⟩

instance xmlGetIdref_locates (t : Node) (c : Bool) : Locates [] (xmlGetIdref tu t c) := by
  unfold xmlGetIdref
  refine .skip inferInstance fun id => ?_
  dsimp only
  split
  · infer_instance
  · refine .skip inferInstance fun id2 => ?_
    split <;> infer_instance

instance xmlPrintTypeIdref_locates (t : Node) (c : Bool) : Locates [] (xmlPrintTypeIdref tu t c) := by
  unfold xmlPrintTypeIdref
  infer_instance

/-- An attribute with the reference to a type. -/
theorem typeAttribute_locates (name : String) (t : Node) (c : Bool) :
    Locates [] (do let ref ← xmlPrintTypeIdref tu t c; writeAttr name [ref]) := by
  refine Locates.follow inferInstance ?_
  rw [value_xmlPrintTypeIdref]
  exact Locates.typeId _ _ _ _

instance xmlPrintTypeAttribute_locates (t : Node) (c : Bool) : Locates [] (xmlPrintTypeAttribute tu t c) :=
  typeAttribute_locates tu "type" t c

instance xmlPrintReturnsAttribute_locates (t : Node) (c : Bool) : Locates [] (xmlPrintReturnsAttribute tu t c) :=
  typeAttribute_locates tu "returns" t c

instance xmlPrintBaseTypeAttribute_locates (t : Node) (c : Bool) : Locates [] (xmlPrintBaseTypeAttribute tu t c) := by
  unfold xmlPrintBaseTypeAttribute
  infer_instance

instance xmlPrintContextAttribute_locates (n : Node) : Locates [] (xmlPrintContextAttribute tu n) := by
  unfold xmlPrintContextAttribute
  infer_instance

omit tu [DecidableEq Node] in
theorem Piece.fileRef?_eq_file? (x : SymPiece Node) : x.fileRef? = x.file? := by cases x <;> rfl

/-- A list of the answers to requests. -/
theorem listedIds_locates (name : String) (ns : List Node) : Locates [] (writeAttr name (listedIds tu ns)) :=
  Locates.of_value fun x hx => by rw [Piece.fileRef?_eq_file?, (node?_listedIds hx).1]

instance listMember_locates (n : Node) : Locates [] (listMember tu n) := by
  unfold listMember
  infer_instance

theorem xmlPrintOverridesFuel_locates (fndecl : Node) (fuel : Nat) (type : Node) :
    Locates [] (xmlPrintOverridesFuel tu fndecl fuel type) := by
  induction fuel generalizing type with
  | zero => exact Locates.nothing _
  | succ fuel ih =>
      have hr : ∀ base, Locates [] (xmlPrintOverridesR tu (xmlPrintOverridesFuel tu fndecl fuel) fndecl base) := by
        intro base
        unfold xmlPrintOverridesR
        split
        · infer_instance
        · exact ih base
      exact Locates.skip (Locates.collect _ _) fun _ => Locates.nothing _

instance xmlPrintVirtualMethodAttributes_locates (d : Node) : Locates [] (xmlPrintVirtualMethodAttributes tu d) := by
  have hoverrides : Locates [] (xmlPrintOverridesMethodAttribute tu d) := by
    obtain ⟨hvalue, -, -⟩ := xmlPrintOverridesFuel_spec tu d (tu.rank (tu.cpDeclContext d) + 1) (tu.cpDeclContext d)
    have hattr : Locates []
        (xmlPrintOverrides tu (tu.cpDeclContext d) d >>= fun found => writeAttr "overrides" found.2) := by
      refine Locates.follow (xmlPrintOverridesFuel_locates tu d _ _) ?_
      rw [xmlPrintOverrides, hvalue]
      exact listedIds_locates tu "overrides" _
    exact Locates.when _ _
  unfold xmlPrintVirtualMethodAttributes
  infer_instance

omit [DecidableEq Node] in
/-- References with blanks between them. -/
theorem Locates.intersperse {name : String} {refs : List (SymPiece Node)} (h : ∀ x ∈ refs, x.fileRef? = none) :
    Locates [] (writeAttr name (refs.intersperse (.str " "))) := by
  refine .of_value fun x hx => ?_
  rcases mem_intersperse hx with rfl | hx
  · rfl
  · exact h x hx

instance xmlPrintThrowAttribute_locates (ft : Node) (c : Bool) : Locates [] (xmlPrintThrowAttribute tu ft c) := by
  have hattr : ∀ raises : List Node, Locates [] (do
      let refs ← Trace.collect raises fun t => xmlPrintTypeIdref tu t c
      writeAttr "throw" (refs.intersperse (.str " "))) := by
    intro raises
    refine Locates.follow inferInstance (.intersperse fun x hx => ?_)
    obtain ⟨t, -, rfl⟩ := List.mem_map.mp hx
    rw [value_xmlPrintTypeIdref]
    rfl
  exact Locates.whenSome _ _

instance xmlPrintBefriendingAttribute_locates (befriending : List Node) :
    Locates [] (xmlPrintBefriendingAttribute tu befriending) := by
  have hattr : ∀ frnds : List Node, Locates [] (do
      let ids ← Trace.collect frnds fun frnd => addNode tu frnd false
      writeAttr "befriending" ((ids.map Piece.id).intersperse (.str " ")) : Print Node Unit) := by
    intro frnds
    refine Locates.follow inferInstance (.intersperse fun x hx => ?_)
    obtain ⟨i, -, rfl⟩ := List.mem_map.mp hx
    rfl
  exact Locates.when _ _

instance xmlPrintNamespaceMembers_locates (ns : Node) : Locates [] (xmlPrintNamespaceMembers tu ns) := by
  refine Locates.follow inferInstance ?_
  simpa [listedIds, List.flatMap_def] using listedIds_locates tu "members" (tu.allDecls ns)

instance xmlPrintRecordMembers_locates (rt : Node) : Locates [] (xmlPrintRecordMembers tu rt) := by
  refine Locates.follow inferInstance (Locates.follow inferInstance ?_)
  simpa [listedIds, List.flatMap_def] using listedIds_locates tu "members" (listedFields tu rt ++ listedMethods tu rt)

instance xmlPrintBasesAttribute_locates (bases : List (BaseBinfo Node)) : Locates [] (xmlPrintBasesAttribute tu bases) := by
  refine Locates.follow inferInstance (.of_value fun x hx => ?_)
  obtain ⟨value, hvalue, hx⟩ := List.mem_flatten.mp hx
  obtain ⟨base, -, rfl⟩ := List.mem_map.mp hvalue
  simp only [Trace.value_bind, Trace.value_pure, List.mem_append, List.mem_cons, List.not_mem_nil, or_false] at hx
  rcases hx with hx | rfl | rfl
  · cases hacc : base.access <;> rw [hacc] at hx <;> simp [Access.mark] at hx <;> subst hx <;> rfl
  · rfl
  · rfl

/-! ### Elements -/

instance xmlOutputNamespaceDecl_locates (ns : Node) (c : Bool) : Locates [] (xmlOutputNamespaceDecl tu ns c) := by
  unfold xmlOutputNamespaceDecl
  split
  · unfold namespaceAttributes
    repeat' first | infer_instance | refine .skip ?_ fun _ => ?_
  · unfold namespaceAliasAttributes
    repeat' first | infer_instance | refine .skip ?_ fun _ => ?_

theorem xmlOutputTypedef_locates (td : Node) (c : Bool) :
    Locates [(tu.tree td).declSourceFile] (xmlOutputTypedef tu td c) := by
  have hattrs : Locates [(tu.tree td).declSourceFile] (typedefAttributes tu td c) := by
    unfold typedefAttributes
    repeat refine .skip inferInstance fun _ => ?_
    exact .last (xmlPrintDeclLocationAttribute_locates tu td) fun _ => inferInstance
  exact .skip inferInstance fun _ => .last hattrs fun _ => inferInstance

/-- The files of the `PARM_DECL`s with a location, among arguments that are printed. -/
def argumentFiles (args : List (Option (ParmDecl Node) × ArgType Node)) : List String :=
  args.filterMap fun arg => (arg.1.filter (·.treeType.isSome)).map (·.declSourceFile)

theorem xmlOutputArgument_locates (pd : Option (ParmDecl Node)) (tl : ArgType Node) (c : Bool) :
    Locates (if pd.any (·.declArtificial) then [] else argumentFiles [(pd, tl)]) (xmlOutputArgument tu pd tl c) := by
  have hlocation : Locates (argumentFiles [(pd, tl)]) (Trace.whenSome (pd.filter (·.treeType.isSome)) fun p =>
      xmlPrintLocationAttribute p.declSourceFile p.declSourceLine : Print Node Unit) := by
    cases hp : pd.filter (·.treeType.isSome) with
    | none =>
        simp only [argumentFiles, List.filterMap_cons, List.filterMap_nil, hp, Option.map_none]
        exact Locates.nothing ()
    | some p =>
        simp only [argumentFiles, List.filterMap_cons, List.filterMap_nil, hp, Option.map_some]
        exact xmlPrintLocationAttribute_locates _ _
  have hattrs : Locates (argumentFiles [(pd, tl)]) (argumentAttributes tu pd tl c) := by
    unfold argumentAttributes
    refine .skip inferInstance fun _ => .skip inferInstance fun _ => ?_
    exact .last hlocation fun _ => inferInstance
  unfold xmlOutputArgument
  cases hart : pd.any (·.declArtificial) with
  | true => exact Locates.nothing ()
  | false => exact .skip inferInstance fun _ => .last hattrs fun _ => inferInstance

theorem xmlOutputArguments_locates (pds : List (ParmDecl Node)) (tls : List (ArgType Node)) (c : Bool) :
    Locates (argumentFiles (printedArguments pds tls)) (xmlOutputArguments tu pds tls c) := by
  induction tls generalizing pds with
  | nil => cases pds <;> exact Locates.nothing ()
  | cons tl tls ih =>
      cases pds with
      | nil => exact .skip (xmlOutputArgument_locates tu none tl c) fun _ => ih []
      | cons pd pds =>
          have hpd := xmlOutputArgument_locates tu (some pd) tl c
          rw [printedArguments]
          cases hart : pd.declArtificial with
          | true =>
              rw [Option.any_some, hart, if_pos rfl] at hpd
              rw [if_pos rfl]
              exact .skip hpd fun _ => ih pds
          | false =>
              rw [Option.any_some, hart, if_neg Bool.false_ne_true] at hpd
              have hcons : argumentFiles ((some pd, tl) :: printedArguments pds tls) =
                  argumentFiles [(some pd, tl)] ++ argumentFiles (printedArguments pds tls) :=
                @List.filterMap_append _ _ [(some pd, tl)] _ _
              rw [if_neg Bool.false_ne_true, hcons]
              exact hpd.after (ih pds)

omit [DecidableEq Node] in
/-- The arguments of a function type have no declarations. -/
theorem argumentFiles_nil (tls : List (ArgType Node)) : argumentFiles (printedArguments [] tls) = [] := by
  induction tls with
  | nil => rfl
  | cons tl tls ih => exact ih

instance typeArguments_locates (tls : List (ArgType Node)) (c : Bool) : Locates [] (xmlOutputArguments tu [] tls c) := by
  rw [← argumentFiles_nil tls]
  exact xmlOutputArguments_locates tu [] tls c

instance xmlOutputEllipsis_locates : Locates [] (xmlOutputEllipsis : Print Node Unit) := by
  unfold xmlOutputEllipsis
  infer_instance

theorem xmlOutputFunctionDecl_locates (fd : Node) (c : Bool) :
    Locates ((tu.tree fd).declSourceFile :: argumentFiles (functionArguments tu fd)) (xmlOutputFunctionDecl tu fd c) := by
  have hattrs : Locates [(tu.tree fd).declSourceFile] (functionAttributes tu fd c) := by
    unfold functionAttributes
    repeat refine .skip inferInstance fun _ => ?_
    exact .last (xmlPrintDeclLocationAttribute_locates tu fd) fun _ => inferInstance
  have harguments := xmlOutputArguments_locates tu ((tu.tree fd).declArguments.drop (skippedArguments tu fd))
    ((tu.tree (tu.treeType fd)).typeArgTypes.drop (skippedArguments tu fd)) c
  show Locates ([(tu.tree fd).declSourceFile] ++ argumentFiles (functionArguments tu fd)) (xmlOutputFunctionDecl tu fd c)
  unfold xmlOutputFunctionDecl
  refine .skip inferInstance fun _ => hattrs.after ?_
  dsimp only
  split
  · rename_i hempty
    have hnone : (tu.tree (tu.treeType fd)).typeArgTypes.drop (skippedArguments tu fd) = [] := by
      simpa using (Bool.and_eq_true_iff.mp hempty).1
    have hfiles : argumentFiles (functionArguments tu fd) = [] := by
      rw [functionArguments, hnone]
      cases (tu.tree fd).declArguments.drop (skippedArguments tu fd) <;> rfl
    rw [hfiles]
    infer_instance
  · exact .skip inferInstance fun _ => .last harguments fun _ => inferInstance

theorem xmlOutputVarDecl_locates (vd : Node) (c : Bool) :
    Locates [(tu.tree vd).declSourceFile] (xmlOutputVarDecl tu vd c) := by
  have hattrs : Locates [(tu.tree vd).declSourceFile] (varDeclAttributes tu vd c) := by
    unfold varDeclAttributes
    repeat refine .skip inferInstance fun _ => ?_
    exact .last (xmlPrintDeclLocationAttribute_locates tu vd) fun _ => inferInstance
  exact .skip inferInstance fun _ => .last hattrs fun _ => inferInstance

theorem xmlOutputFieldDecl_locates (fd : Node) (c : Bool) :
    Locates [(tu.tree fd).declSourceFile] (xmlOutputFieldDecl tu fd c) := by
  have hattrs : Locates [(tu.tree fd).declSourceFile] (fieldDeclAttributes tu fd c) := by
    unfold fieldDeclAttributes
    repeat refine .skip inferInstance fun _ => ?_
    exact .last (xmlPrintDeclLocationAttribute_locates tu fd) fun _ => inferInstance
  exact .skip inferInstance fun _ => .last hattrs fun _ => inferInstance

instance xmlOutputBase_locates (base : BaseBinfo Node) : Locates [] (xmlOutputBase tu base) := by
  unfold xmlOutputBase baseAttributes
  infer_instance

theorem xmlOutputRecordType_locates (rt : Node) (c : Bool) :
    Locates [(tu.tree (tu.typeNameOf rt)).declSourceFile] (xmlOutputRecordType tu rt c) := by
  have hattrs : Locates [(tu.tree (tu.typeNameOf rt)).declSourceFile] (recordAttributes tu rt c) := by
    unfold recordAttributes
    repeat refine .skip inferInstance fun _ => ?_
    refine .last (xmlPrintDeclLocationAttribute_locates tu _) fun _ => ?_
    repeat' first | infer_instance | refine .skip ?_ fun _ => ?_
  unfold xmlOutputRecordType
  refine .skip inferInstance fun _ => .last hattrs fun _ => ?_
  split <;> infer_instance

instance xmlOutputUnimplemented_locates (t : Node) (dn : Option Node) (function : Option String) :
    Locates [] (xmlOutputUnimplemented tu t dn function) := by
  unfold xmlOutputUnimplemented unimplementedAttributes
  repeat' first | infer_instance | refine .skip ?_ fun _ => ?_

instance xmlOutputEnumValue_locates (purpose : Option String) (value : Node) :
    Locates [] (xmlOutputEnumValue tu purpose value) := by
  unfold xmlOutputEnumValue enumValueAttributes
  split <;> infer_instance

theorem xmlOutputEnumeralType_locates (t : Node) :
    Locates [(tu.tree (tu.typeNameOf t)).declSourceFile] (xmlOutputEnumeralType tu t) := by
  have hattrs : Locates [(tu.tree (tu.typeNameOf t)).declSourceFile] (enumeralTypeAttributes tu t) := by
    unfold enumeralTypeAttributes
    repeat refine .skip inferInstance fun _ => ?_
    exact .last (xmlPrintDeclLocationAttribute_locates tu _) fun _ => inferInstance
  exact .skip inferInstance fun _ => .last hattrs fun _ => inferInstance

instance xmlOutputIndirectType_locates (tag : String) (t : Node) : Locates [] (xmlOutputIndirectType tu tag t) := by
  unfold xmlOutputIndirectType indirectTypeAttributes
  infer_instance

/-- The files of the declarations whose locations are printed for a type that is its own main variant. -/
def mainVariantFiles (t : Node) : List String :=
  match tu.treeCode t with
  | .unionType | .qualUnionType | .recordType | .enumeralType => [(tu.tree (tu.typeNameOf t)).declSourceFile]
  | _ => []

theorem xmlOutputMainVariant_locates (t : Node) (c : Bool) :
    Locates (mainVariantFiles tu t) (xmlOutputMainVariant tu t c) := by
  unfold xmlOutputMainVariant
  split <;> rename_i hcode <;> simp only [mainVariantFiles, hcode]
  case h_1 | h_2 | h_3 => exact xmlOutputRecordType_locates tu t c
  case h_4 =>
    unfold xmlOutputArrayType arrayTypeAttributes
    repeat' first | infer_instance | refine .skip ?_ fun _ => ?_
  case h_5 | h_6 => exact xmlOutputIndirectType_locates tu _ t
  case h_7 =>
    unfold xmlOutputFunctionType functionTypeAttributes
    infer_instance
  case h_8 =>
    unfold xmlOutputMethodType methodTypeAttributes
    repeat' first | infer_instance | refine .skip ?_ fun _ => ?_
  case h_9 =>
    unfold xmlOutputOffsetType offsetTypeAttributes
    repeat' first | infer_instance | refine .skip ?_ fun _ => ?_
  case h_10 => exact xmlOutputEnumeralType_locates tu t
  case h_17 => exact Locates.nothing ()
  all_goals
    unfold xmlOutputFundamentalType fundamentalTypeAttributes
    infer_instance

instance xmlOutputVariant_locates (t : Node) (c : Bool) : Locates [] (xmlOutputVariant tu t c) := by
  unfold xmlOutputVariant cvQualifiedTypeAttributes
  infer_instance

/-- **The files of the declarations whose locations are printed** for the node `n`, in the order of the text. -/
def locatedFiles (n : Node) : List String :=
  match tu.treeCode n with
  | .typeDecl | .varDecl | .fieldDecl => [(tu.tree n).declSourceFile]
  | .functionDecl => (tu.tree n).declSourceFile :: argumentFiles (functionArguments tu n)
  | .unionType | .qualUnionType | .recordType | .enumeralType =>
      if n = tu.typeMainVariant n then [(tu.tree (tu.typeNameOf n)).declSourceFile] else []
  | _ => []

/-- **Printing a node writes the locations of `locatedFiles`.** -/
theorem xmlDumpTreeNode_locates (n : Node) (c : Bool) : Locates (locatedFiles tu n) (xmlDumpTreeNode tu n c) := by
  have hcv : ∀ files : List String, (n = tu.typeMainVariant n → mainVariantFiles tu n = files) →
      (n ≠ tu.typeMainVariant n → files = []) → Locates files (xmlOutputCvQualifiedType tu n c) := by
    intro files hmain hother
    unfold xmlOutputCvQualifiedType
    split
    · rename_i hn
      rw [← hmain hn]
      exact xmlOutputMainVariant_locates tu n c
    · rename_i hn
      rw [hother hn]
      infer_instance
  unfold xmlDumpTreeNode
  split <;> rename_i hcode <;> simp only [locatedFiles, hcode]
  case h_1 => infer_instance
  case h_2 => exact xmlOutputTypedef_locates tu n c
  case h_3 => exact xmlOutputFunctionDecl_locates tu n c
  case h_4 => exact xmlOutputVarDecl_locates tu n c
  case h_5 => exact xmlOutputFieldDecl_locates tu n c
  case h_22 => infer_instance
  all_goals
    refine hcv _ (fun hn => ?_) fun hn => ?_
    · simp [mainVariantFiles, hcode, ← hn]
    · simp [hn]

end

end

end GccXml
