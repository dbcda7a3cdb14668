import GccXml.Cpp.Stackings

namespace GccXml

/-! # `Cpp.CacheDisabled` — the decisions with and without the include cache

A new file has no marks, so without the cache `should_stack_file` can only compare its text with the files that were
looked up before. With the cache it has the marks of the file. Both come to the same decision, but for a text whose
guard is defined, and for an import of a file that was looked up and is still to be stacked.

What decides is brought into the terms in which the readers agree. A file of the reader without the cache is always
new, and it is stacked unless its text is to be included once only or, for an import, was looked up before
(`stackable_fresh`). The file of the other reader, when it is included, is stacked unless its text is to be included
once only or its own guard is defined (`stackable_include`). For an include these differ in the guard alone; for
an import of a file that was known before the one reader does not stack it, and the other one does if it comes too late.

With the decision known, the two readers are taken through `_cpp_stack_file`: neither stacks the file, both do, or the
reader without the cache does alone. In the last case the guard is defined and known to the other reader, and the text
is left at once. `Matches` keeps all three: the readers agree again, and the texts are the same but for such ones. -/

namespace Cpp

open Chain Reader Insertions

/-! ## When a file is stacked -/

/-- The reader with the cache stacks no file that the other one does not stack, and the other one stacks a file too many
only if its guard is defined, which the reader with the cache knows. -/
def Decides (out : Outside) (rc ru : Reader) (f g : Nat) (import_ : Bool) : Prop :=
  (Stackable out rc f import_ → Stackable out ru g import_) ∧
    (Stackable out ru g import_ → ¬ Stackable out rc f import_ →
      (rc.file f).cmacroName.isSome = true ∧ ∃ t, textAt out (ru.file g) = some t ∧ guardDefined out ru t = true)

/-- The guard of a text is known, since a file with this text was left. -/
def GuardKnown (out : Outside) (r : Reader) (t : Contents) : Prop :=
  ∃ f < r.files.length, textAt out (r.file f) = some t ∧ (r.file f).cmacroName.isSome = true

/-- A text that is stacked while its guard is defined, and known. -/
def KnownGuarded (out : Outside) (r : Reader) (s : Stacked) : Prop := s.guarded = true ∧ GuardKnown out r s.text

section

variable {out : Outside} {rc ru rc' r r' : Reader} {f g : Nat} {t : Contents} {import_ : Bool} {fname : Path}
  {d : DirRef} {l : List DirRef} {file file' : CppFile}

theorem guardDefined_eq_true : guardDefined out r t = true ↔ ∃ m, out.guard t = some m ∧ m ∈ r.macros := by
  rw [guardDefined, Option.any_eq_true]
  simp only [List.contains_iff_mem]

/-- Only the files and the macros decide. -/
theorem stackable_congr (hfiles : r'.files = r.files) (hmacros : r'.macros = r.macros) :
    Stackable out r' f import_ ↔ Stackable out r f import_ := by
  have hfile : ∀ g, r'.file g = r.file g := fun g => by rw [Reader.file, hfiles, Reader.file]
  constructor
  · rintro ⟨hreadable, honce, hstacked, hguard, hunseen⟩
    simp only [hfile, hfiles, hmacros] at hreadable honce hstacked hguard hunseen
    exact ⟨hreadable, honce, hstacked, hguard, hunseen⟩
  · rintro ⟨hreadable, honce, hstacked, hguard, hunseen⟩
    simp only [← hfile, ← hfiles, ← hmacros] at hreadable honce hstacked hguard hunseen
    exact ⟨hreadable, honce, hstacked, hguard, hunseen⟩

/-- **A new file** is stacked unless its text is to be included once only or, for an import, was looked up before. -/
theorem stackable_fresh (hfile : Unread fname { file with pch := none }) :
    Stackable out (r.addFile file) r.files.length import_ ↔
      ∃ t, textAt out file = some t ∧ (import_ = true → ¬ LookedUp out r t) ∧ ¬ OnceOnly out r t := by
  have hself := @file_addFile_self r file
  constructor
  · -- a file that was seen before keeps its place when the new one is added behind it
    intro hs
    have hreadable := hs.readable
    rw [hself] at hreadable
    obtain ⟨t, ht⟩ := Option.isSome_iff_exists.mp hreadable
    have hunseen := hs.unseen
    rw [hself, ht] at hunseen
    refine ⟨t, ht, fun himport => ?_, ?_⟩
    · rintro ⟨g, hg, htext⟩
      apply hunseen
      refine ⟨g, by rw [length_addFile]; exact Nat.lt_succ_of_lt hg, Nat.ne_of_lt hg, .inl himport, ?_⟩
      rw [file_addFile_lt hg]
      exact htext
    · rintro ⟨g, hg, honce, htext⟩
      apply hunseen
      refine ⟨g, by rw [length_addFile]; exact Nat.lt_succ_of_lt hg, Nat.ne_of_lt hg, .inr ?_, ?_⟩
      · rw [file_addFile_lt hg]
        exact honce
      · rw [file_addFile_lt hg]
        exact htext
  · -- a fresh file carries no mark, no count and no guard: only the comparison with the others is left
    rintro ⟨t, ht, hlooked, honly⟩
    have honce : file.onceOnly = false := hfile.onceOnly
    have hcount : file.stackCount = 0 := hfile.stackCount
    have hname : file.cmacroName = none := hfile.cmacroName
    refine ⟨by rw [hself, ht]; rfl, by rw [hself, honce], fun _ => by rw [hself, hcount], fun m hm => ?_, ?_⟩
    · rw [hself, hname] at hm
      cases hm
    · rintro ⟨g, hg, hne, hmark, htext⟩
      rw [length_addFile] at hg
      have hlt : g < r.files.length := Nat.lt_of_le_of_ne (Nat.le_of_lt_succ hg) hne
      rw [file_addFile_lt hlt, hself, ht] at htext
      rw [file_addFile_lt hlt] at hmark
      obtain himport | honce' := hmark
      · exact hlooked himport ⟨g, hlt, htext⟩
      · exact honly ⟨g, hlt, honce', htext⟩

/-- **A file that is included** is stacked unless its text is to be included once only or its guard is defined. -/
theorem stackable_include (hf : f < r.files.length) :
    Stackable out r f false ↔ ∃ t, textAt out (r.file f) = some t ∧ ¬ OnceOnly out r t ∧
      ∀ m, (r.file f).cmacroName = some m → m ∉ r.macros := by
  constructor
  · intro hs
    obtain ⟨t, ht⟩ := Option.isSome_iff_exists.mp hs.readable
    refine ⟨t, ht, ?_, hs.notGuarded⟩
    rintro ⟨g, hg, honce, htext⟩
    by_cases hgf : g = f
    · subst hgf
      cases honce.symm.trans hs.notOnce
    · exact hs.unseen ⟨g, hg, hgf, .inr honce, htext.trans ht.symm⟩
  · rintro ⟨t, ht, honly, hguard⟩
    refine ⟨by rw [ht]; rfl, ?_, nofun, hguard, ?_⟩
    · exact Bool.eq_false_iff.mpr fun honce => honly ⟨f, hf, honce, ht⟩
    · rintro ⟨g, hg, -, himport | honce, htext⟩
      · cases himport
      · exact honly ⟨g, hg, honce, htext.trans ht⟩

/-- The guard of a file that is stacked is not defined, or not known. -/
theorem Stackable.not_knownGuarded (h : Stackable out r f true) (hguard : GuardInv out r)
    (ht : textAt out (r.file f) = some t) : ¬ KnownGuarded out r ⟨t, guardDefined out r t⟩ := by
  rintro ⟨hdefined, g, hg, htext, hname⟩
  -- no other file has the text, so the guard would be the file's own
  obtain rfl : g = f := by
    by_contra hne
    exact h.unseen ⟨g, hg, hne, .inl rfl, htext.trans ht.symm⟩
  obtain ⟨m, hm⟩ := Option.isSome_iff_exists.mp hname
  obtain ⟨t', ht', hguard'⟩ := hguard g hg m hm
  obtain rfl : t = t' := Option.some.inj (ht.symm.trans ht')
  obtain ⟨m', hm', hmacro⟩ := guardDefined_eq_true.mp hdefined
  obtain rfl : m = m' := Option.some.inj (hguard'.symm.trans hm')
  exact h.notGuarded m hm hmacro

/-! ## The decision about a file that was looked up -/

/-- Both readers have a file in the same place, if it is in a directory. -/
theorem Finds.sameFile (h : Finds out rc ru fname l rc' f file) (hstart : StartsAt rc d l)
    (hdir : file.dir.isSome = true) : SameFile out rc' (ru.addFile file) f ru.files.length := by
  have hsame := h.found.same h.found'
  have hself := @file_addFile_self ru file
  refine ⟨h.lt, by rw [length_addFile]; exact Nat.lt_succ_self _, ?_, ?_, ?_, fun k hk => ?_⟩
  · rw [hself, hsame.1]
  · rw [hself, hsame.2.1 (hsame.1 ▸ hdir)]
  · rw [hself, hsame.2.2]
  · have hmem : DirRef.wrapperDir k ∈ l := List.mem_of_find?_eq_some (h.found.dir.symm.trans hk)
    exact hstart.plain _ hmem k rfl

theorem FoundAt.dir_isSome (h : FoundAt out r fname l file) (ht : textAt out file = some t) :
    file.dir.isSome = true := by
  have htext := h.text.symm.trans ht
  rw [h.dir]
  cases hfirst : firstDir out noPch r fname l with
  | none =>
      rw [textIn, hfirst] at htext
      cases htext
  | some d => rfl

/-- **The decision about a file**, unless it is an import that comes too late. -/
theorem Finds.decides (h : Agree out rc ru) (hfinds : Finds out rc ru fname l rc' f file)
    (hlate : import_ = true → CacheHit out rc fname l f → ¬ Stackable out rc f true) :
    Decides out rc' (ru.addFile file) f ru.files.length import_ := by
  have htext : textAt out file = textAt out (rc'.file f) := (hfinds.found.same hfinds.found').2.2
  have honce : file.onceOnly = false := hfinds.made.unread.onceOnly
  have hself := @file_addFile_self ru file
  unfold Decides
  rw [stackable_fresh hfinds.made.unread, hself]
  cases import_ with
  | false =>
      -- without `import_` both readers ask for a once-only mark; the guard is the cached reader's alone
      rw [stackable_include hfinds.lt]
      have honly : ∀ t, OnceOnly out rc' t ↔ OnceOnly out ru t := fun t =>
        (hfinds.agree.onceOnly t).symm.trans (onceOnly_addFile honce)
      constructor
      · rintro ⟨t, ht, hno, -⟩
        exact ⟨t, htext.trans ht, nofun, fun hyes => hno ((honly t).mpr hyes)⟩
      · rintro ⟨t, ht, -, hno⟩ hnot
        -- only the guard can have kept the cached reader from stacking the file
        by_contra hundefined
        apply hnot
        refine ⟨t, htext.symm.trans ht, fun hyes => hno ((honly t).mp hyes), fun m hm hdefined => hundefined ?_⟩
        obtain ⟨t', ht', hguard⟩ := hfinds.agree.guard f hfinds.lt m hm
        obtain rfl : t = t' := Option.some.inj (ht.symm.trans (htext.trans ht'))
        have hmacros : (ru.addFile file).macros = rc'.macros := congrArg Settings.macros hfinds.agree.settings
        exact ⟨by rw [hm]; rfl, t, ht, guardDefined_eq_true.mpr ⟨m, hguard, hmacros ▸ hdefined⟩⟩
  | true =>
      obtain ⟨hhit, hfiles⟩ | ⟨fresh, hfiles, rfl, hfresh, -⟩ := hfinds.origin
      · -- the file was looked up before, so the other reader does not stack it
        have hkept : Stackable out rc' f true ↔ Stackable out rc f true := stackable_congr hfiles hfinds.macros
        refine ⟨fun hs => absurd (hkept.mp hs) (hlate rfl hhit), ?_⟩
        rintro ⟨t, ht, hlooked, -⟩
        refine absurd ((h.lookedUp t).mpr ⟨f, hfiles ▸ hfinds.lt, ?_⟩) (hlooked rfl)
        rw [Reader.file, ← hfiles]
        exact htext.symm.trans ht
      · -- neither reader had the file: both stack their fresh one by the same two questions
        have hfile : rc'.file rc.files.length = fresh := by
          rw [Reader.file, hfiles]
          exact @file_addFile_self rc fresh
        have hkept : Stackable out rc' rc.files.length true ↔ Stackable out (rc.addFile fresh) rc.files.length true :=
          stackable_congr hfiles hfinds.macros
        rw [hkept, stackable_fresh hfresh.unread, htext, hfile]
        have hlooked : ∀ t, LookedUp out ru t ↔ LookedUp out rc t := h.lookedUp
        have honly : ∀ t, OnceOnly out ru t ↔ OnceOnly out rc t := h.onceOnly
        simp only [hlooked, honly]
        exact ⟨id, fun hs hnot => absurd hs hnot⟩

/-- **The decision about an import that comes too late**: the reader with the cache stacks its file, and the other one
does not. -/
theorem Finds.decides_late (h : Agree out rc ru) (hstart : StartsAt rc d l)
    (hfinds : Finds out rc ru fname l rc' f file) (hhit : CacheHit out rc fname l g) (hs : Stackable out rc g true) :
    Stackable out rc' f true ∧ ¬ Stackable out (ru.addFile file) ru.files.length true := by
  obtain ⟨hg, hfound⟩ := h.hash.foundAt hstart hhit
  obtain ⟨-, hfiles⟩ | ⟨-, -, -, -, hunknown⟩ := hfinds.origin
  · have hf : f < rc.files.length := hfiles ▸ hfinds.lt
    have hfile : rc'.file f = rc.file f := by rw [Reader.file, hfiles, Reader.file]
    have hsame := (hfound.same (hfile ▸ hfinds.found)).2.2
    obtain rfl : f = g := by
      by_contra hne
      exact hs.unseen ⟨f, hf, hne, .inl rfl, hsame⟩
    refine ⟨(stackable_congr hfiles hfinds.macros).mpr hs, fun hyes => ?_⟩
    obtain ⟨t, ht, hlooked, -⟩ := (stackable_fresh hfinds.made.unread).mp hyes
    exact hlooked rfl ((h.lookedUp t).mpr ⟨f, hf, (hfound.same hfinds.found').2.2.symm.trans ht⟩)
  · exact absurd hhit (hunknown g)

end

/-! ## Stacking in both readers -/

/-- What both readers have come to: they agree, and the one without the cache has stacked the same texts, and some more
whose guard was defined, and known to the other one. That came from `rc` and has forgotten nothing. -/
structure Matches (out : Outside) (rc : Reader) (cached built : Reader × List Stacked) : Prop where
  mirrors : Mirrors out cached.1 built.1
  keeps : Keeps out rc cached.1
  inserts : Inserts (KnownGuarded out cached.1) built.2 cached.2

/-- The reader after `_cpp_stack_file`, and what it has stacked. -/
def entered (out : Outside) (result : Reader × Bool) : Reader × List Stacked :=
  if result.2 then enter out result.1 else (result.1, [])

section

variable {out : Outside} {rc ru rc' ru' r r' : Reader} {f g : Nat} {t : Contents} {import_ : Bool} {fname : Path}
  {d : DirRef} {l : List DirRef} {file file' : CppFile} {sc su : Bool}

theorem Keeps.guardKnown (h : Keeps out r r') (hknown : GuardKnown out r t) : GuardKnown out r' t := by
  obtain ⟨f, hf, ht, hname⟩ := hknown
  exact ⟨f, Nat.lt_of_lt_of_le hf h.extends_.length_files, (h.text f hf).trans ht, h.cmacroName f hf hname⟩

theorem Mirrors.matches (h : Mirrors out rc' ru') (hkeeps : Keeps out rc rc') : Matches out rc (rc', []) (ru', []) :=
  ⟨h, hkeeps, .nil⟩

theorem Matches.after {cached built : Reader × List Stacked} (h : Matches out rc' cached built)
    (hkeeps : Keeps out rc rc') : Matches out rc cached built := ⟨h.mirrors, hkeeps.trans h.keeps, h.inserts⟩

theorem Matches.extraGuarded {cached built : Reader × List Stacked} (h : Matches out rc cached built) :
    ExtraGuarded built.2 cached.2 := h.inserts.imp fun _ hs => hs.1

/-- The buffers are those of files. -/
theorem Mirrors.buffers_lt (h : Mirrors out rc ru) :
    (∀ b ∈ rc.buffers, b.file < rc.files.length) ∧ ∀ b ∈ ru.buffers, b.file < ru.files.length := by
  have hlt := h.buffers.imp fun _ _ hb => And.intro hb.file.lt hb
  have hlt' := h.buffers.flip.imp fun _ _ hb => And.intro hb.file.lt' hb
  exact ⟨((List.forall₂_and_left _ _).mp hlt).1, ((List.forall₂_and_left _ _).mp hlt').1⟩

theorem Mirrors.macros_eq (h : Mirrors out rc ru) : ru.macros = rc.macros := congrArg Settings.macros h.settings

/-- Both readers enter the same text. -/
theorem Mirrors.enter (h : Mirrors out rc ru) : Matches out rc (Cpp.enter out rc) (Cpp.enter out ru) := by
  have hbuffers := h.buffers
  have hpop := h.popFileBuffer
  have hkeeps := (keeps_popFileBuffer h.reading h.buffers_lt.1).2
  have hmacros := h.macros_eq
  unfold Cpp.enter
  generalize hc : rc.buffers = bs at hbuffers
  generalize hu : ru.buffers = bs' at hbuffers
  cases hbuffers with
  | nil => exact h.matches (.refl rc)
  | @cons b b' bs bs' hb _ =>
      have hguard : guardDefined out ru b'.text = guardDefined out rc b.text := by
        rw [guardDefined, guardDefined, hb.text, hmacros]
      dsimp only
      rw [hguard, hb.text]
      cases guardDefined out rc b.text with
      | true => exact ⟨hpop, hkeeps, .refl _⟩
      | false => exact ⟨h, .refl rc, .refl _⟩

theorem mainFile_of_search (h : r'.search = r.search) : r'.mainFile = r.mainFile := congrArg SearchState.mainFile h

theorem Stacks.mainFile (h : Stacks out r f import_ r' sc) (hf : f < r.files.length) : r'.mainFile = r.mainFile :=
  (mainFile_of_search h.alike.search).trans (mainFile_of_search (markImported_same out hf import_).1)

theorem Stacks.macros (h : Stacks out r f import_ r' sc) (hf : f < r.files.length) : r'.macros = r.macros :=
  h.alike.macros.trans (markImported_same out hf import_).2.1

/-- The same file gets the same `sysp`. -/
theorem SameFile.stackSysp (h : SameFile out rc ru f g) (hmirrors : Mirrors out rc ru) :
    Cpp.stackSysp ru g = Cpp.stackSysp rc f := by
  have hbuffers := hmirrors.buffers
  have hdir := h.dir
  have hplain := h.plain
  unfold Cpp.stackSysp
  rw [hdir]
  generalize rc.buffers = bs at hbuffers
  generalize ru.buffers = bs' at hbuffers
  cases hbuffers with
  | nil => rfl
  | cons hb _ =>
      cases hd : (rc.file f).dir with
      | none => rfl
      | some d =>
          have hsysp : ru.dir d = rc.dir d := dir_of_settings hmirrors.settings fun k hk => hplain k (hk ▸ hd)
          dsimp only
          rw [hb.sysp, hsysp]

/-- Neither reader has stacked the file. -/
theorem Mirrors.stacks_neither (h : Mirrors out rc ru) (hagree : Agree out rc' ru') (hf : f < rc.files.length)
    (hg : g < ru.files.length) (hc : Stacks out rc f import_ rc' false) (hu : Stacks out ru g import_ ru' false) :
    Mirrors out rc' ru' :=
  h.keeps hagree (hc.keeps hf) (hu.keeps hg) hc.buffers hu.buffers (hc.mainFile hf) (hu.mainFile hg)

/-- Both readers have stacked the file. -/
theorem Mirrors.stacks_both (h : Mirrors out rc ru) (hagree : Agree out rc' ru') (hfile : SameFile out rc ru f g)
    (ht : textAt out (rc.file f) = some t) (hc : Stacks out rc f import_ rc' true)
    (hu : Stacks out ru g import_ ru' true) : Mirrors out rc' ru' := by
  have hkeeps := hc.keeps hfile.lt
  have hkeeps' := hu.keeps hfile.lt'
  have hbuffers := hc.buffers
  have hbuffers' := hu.buffers
  rw [if_pos rfl, ht, Option.getD_some] at hbuffers
  rw [if_pos rfl, hfile.text, ht, Option.getD_some] at hbuffers'
  have hbuffer : SameBuffer out rc' ru' ⟨f, Cpp.stackSysp rc f, t⟩ ⟨g, Cpp.stackSysp ru g, t⟩ :=
    ⟨hfile.keeps hkeeps hkeeps', hfile.stackSysp h, rfl, (hkeeps.text f hfile.lt).trans ht⟩
  refine ⟨hagree, ?_, ?_⟩
  · rw [hbuffers, hbuffers']
    exact .cons hbuffer (forall₂_keeps h.buffers hkeeps hkeeps')
  · rw [hc.mainFile hfile.lt, hu.mainFile hfile.lt']
    exact h.mainFile.keeps hkeeps hkeeps'

/-- Only the reader without the cache has stacked the file. Its guard is defined, so it is left again. -/
theorem Mirrors.stacks_guarded (h : Mirrors out rc ru) (hagree : Agree out rc' ru') (hf : f < rc.files.length)
    (hg : g < ru.files.length) (ht : textAt out (ru.file g) = some t) (hguard : guardDefined out ru t = true)
    (hknown : GuardKnown out rc t) (hc : Stacks out rc f import_ rc' false) (hu : Stacks out ru g import_ ru' true) :
    Matches out rc (rc', []) (Cpp.enter out ru') := by
  have hbuffers' := hu.buffers
  rw [if_pos rfl, ht, Option.getD_some] at hbuffers'
  have hlt : g < ru'.files.length := Nat.lt_of_lt_of_le hg (hu.keeps hg).extends_.length_files
  obtain ⟨-, halike, hpopped, -⟩ := popFileBuffer_alike hu.reading hbuffers' hlt
  have hguard' : guardDefined out ru' t = true := by
    rw [guardDefined, hu.macros hg]
    exact hguard
  have henter : Cpp.enter out ru' = (Cpp.popFileBuffer out ru', [⟨t, true⟩]) := by
    unfold Cpp.enter
    rw [hbuffers']
    dsimp only
    rw [hguard', if_pos rfl]
  have hmain : (Cpp.popFileBuffer out ru').mainFile = ru.mainFile :=
    (mainFile_popFileBuffer ru').trans (hu.mainFile hg)
  have hagree' := hagree.popFileBuffer_right hbuffers' hlt
  have hkeeps := hc.keeps hf
  rw [henter]
  refine ⟨?_, hkeeps, .extra ⟨rfl, hkeeps.guardKnown hknown⟩ .nil⟩
  exact h.keeps hagree' hkeeps ((hu.keeps hg).trans halike.keeps) hc.buffers hpopped (hc.mainFile hf) hmain

/-- **`_cpp_stack_file` in both readers**, for a file about which they decide alike. -/
theorem Mirrors.stackFile (hdistinct : DistinctFiles out rc) (hdistinct' : DistinctFiles out ru)
    (h : Mirrors out rc ru) (hf : f < rc.files.length) (hg : g < ru.files.length)
    (htext : textAt out (ru.file g) = textAt out (rc.file f))
    (hsame : (textAt out (rc.file f)).isSome = true → SameFile out rc ru f g)
    (hdecides : Decides out rc ru f g import_) :
    Matches out rc (entered out (Cpp.stackFile out rc f import_)) (entered out (Cpp.stackFile out ru g import_)) := by
  obtain ⟨rc', sc, hstack, hc⟩ := stackFile_stacks hdistinct h.reading hf import_
  obtain ⟨ru', su, hstack', hu⟩ := stackFile_stacks hdistinct' h.reading' hg import_
  have hagree := h.toAgree.stacks hf hg htext hc hu
  rw [hstack, hstack']
  unfold entered
  cases su with
  | false =>
      cases sc with
      | true => exact absurd (hu.stacked_iff.mpr (hdecides.1 (hc.stacked_iff.mp rfl))) Bool.false_ne_true
      | false => exact (h.stacks_neither hagree hf hg hc hu).matches (hc.keeps hf)
  | true =>
      have hyes := hu.stacked_iff.mp rfl
      cases sc with
      | true =>
          obtain ⟨t, ht⟩ := Option.isSome_iff_exists.mp (hc.stacked_iff.mp rfl).readable
          exact (h.stacks_both hagree (hsame (by rw [ht]; rfl)) ht hc hu).enter.after (hc.keeps hf)
      | false =>
          -- a stacking too many
          obtain ⟨hname, t, ht, hguard⟩ := hdecides.2 hyes fun hs => Bool.false_ne_true (hc.stacked_iff.mpr hs)
          exact h.stacks_guarded hagree hf hg ht hguard ⟨f, hf, htext.symm.trans ht, hname⟩ hc hu

/-- A file that is stacked is entered. -/
theorem entered_stackFile_of (hdistinct : DistinctFiles out r) (h : ReadingInv out r) (hf : f < r.files.length)
    (hyes : Stackable out r f import_) (ht : textAt out (r.file f) = some t) :
    (entered out (Cpp.stackFile out r f import_)).2 = [⟨t, guardDefined out r t⟩] := by
  obtain ⟨r', stacked, hstack, hstacks⟩ := stackFile_stacks hdistinct h hf import_
  obtain rfl := hstacks.stacked_iff.mpr hyes
  have hbuffers := hstacks.buffers
  rw [if_pos rfl, ht, Option.getD_some] at hbuffers
  have hguard : guardDefined out r' t = guardDefined out r t := by rw [guardDefined, guardDefined, hstacks.macros hf]
  rw [hstack, entered, if_pos rfl, Cpp.enter, hbuffers]
  dsimp only
  rw [hguard]

theorem entered_stackFile_of_not (hdistinct : DistinctFiles out r) (h : ReadingInv out r) (hf : f < r.files.length)
    (hno : ¬ Stackable out r f import_) : (entered out (Cpp.stackFile out r f import_)).2 = [] := by
  obtain ⟨r', stacked, hstack, hstacks⟩ := stackFile_stacks hdistinct h hf import_
  have hfalse : stacked = false := Bool.eq_false_iff.mpr fun hyes => hno (hstacks.stacked_iff.mp hyes)
  rw [hstack, entered, if_neg (Bool.eq_false_iff.mp hfalse)]

end

end Cpp

end GccXml
