import GccXml.Cpp.IncludeOptions

namespace GccXml

/-! # `Cpp.IncludePaths` — the search paths of a command line

`merge_include_chains` makes three paths of the five chains. The system chain goes on with the after chain; then each
chain in turn loses, through a pointer to the pointer to its current node, the directories that are missing or that
occurred before, and its last pointer is set to the chain that comes next: bracket to system, quote to bracket, the
wrapper chain to nothing. So the quote path is `Q ++ (B ++ S)`, the bracket path is `B ++ S`, and the nodes of `B` and `S`
are shared.

What one call of `remove_duplicates` does to one chain is `Removal` of `Cpp.IncludeChains`; here the calls follow each
other (`Merging`), and what is left of the chains is `keeps`. A directory may still stand twice in the quote path, once
from `Q` and once from `B`: what is registered once is a directory of one kind or of the system chain behind it.

`SearchPaths` says what that means for a search: it finds what one in the directories that were asked for finds, each
kind in its order, the directories of the user that are system ones left out. -/

namespace Cpp

open Chain KeepFirst
open Removal (keeps joinPlace)

namespace IncPath

variable {s : IncPath} {L : ChainName → List Nat} {a : Asked} {config : IncConfig}

/-! ## Merging -/

/-- **What `merge_include_chains` makes of the chains `L`.** `Q`, `B` and `S` are what is left of the quote, bracket and
    system chains, `W` of the wrapper chain. -/
structure Merged (stat : Path → DirStat) (s s' : IncPath) (L : ChainName → List Nat) (Q B S W : List Nat) : Prop where
  system_eq : S = keeps stat s.dirs [] [] [] (L .system ++ L .after)
  bracket_eq : B = keeps stat s.dirs S S [] (L .bracket)
  quote_eq : Q = keeps stat s.dirs S (B ++ S) [] (L .quote)
  wrapper_eq : W = keeps stat s.dirs S [] [] (L .wrapper)
  quote : Walks (nextIn s'.dirs) (s'.heads .quote) (Q ++ (B ++ S))
  bracket : Walks (nextIn s'.dirs) (s'.heads .bracket) (B ++ S)
  wrapper : Walks (nextIn s'.dirs) (s'.heads .wrapper) W
  noted : ∀ i ∈ Q ++ (B ++ S) ++ W, Noted stat s'.dirs i
  length : s'.dirs.length = s.dirs.length
  name : ∀ i : Nat, s'.dirs[i]?.map IncDir.name = s.dirs[i]?.map IncDir.name
  quoteIgnoresSourceDir : s'.quoteIgnoresSourceDir = s.quoteIgnoresSourceDir

variable {stat : Path → DirStat}

theorem keeps_subset {dirs : List IncDir} {S J R : List Nat} : ∀ i ∈ keeps stat dirs S J [] R, i ∈ R :=
  fun _ hi => keepFirst_sublist.subset hi

/-- **The state between two removals**, when the chains in `todo` are as they were collected. -/
structure Merging (stat : Path → DirStat) (s : IncPath) (L : ChainName → List Nat) (todo : List ChainName)
    (s' : IncPath) : Prop where
  length : s'.dirs.length = s.dirs.length
  name : ∀ i : Nat, s'.dirs[i]?.map IncDir.name = s.dirs[i]?.map IncDir.name
  place : ∀ i, placeOf stat s'.dirs i = placeOf stat s.dirs i
  quoteIgnoresSourceDir : s'.quoteIgnoresSourceDir = s.quoteIgnoresSourceDir
  pending : ∀ c ∈ todo, Walks (nextIn s'.dirs) (s'.heads c) (L c)

/-- The first step of `merge_include_chains`: the system chain goes on with the after chain. -/
theorem Collects.joinAfter (h : s.Collects L) (stat : Path → DirStat) :
    ∃ s', s.joinAfter = some s' ∧ Merging stat s L [.bracket, .quote, .wrapper] s' ∧
      Walks (nextIn s'.dirs) (s'.heads .system) (L .system ++ L .after) := by
  have hsystem := h.walks .system
  unfold IncPath.joinAfter
  cases hhead : s.heads .system with
  | none =>
      have hempty : L .system = [] := by
        rw [hhead] at hsystem
        exact hsystem.unique rfl
      refine ⟨_, rfl, ⟨rfl, fun _ => rfl, fun _ => rfl, rfl, fun c hc => ?_⟩, ?_⟩
      · show Walks (nextIn s.dirs) (if c = .system then s.heads .after else s.heads c) (L c)
        rw [if_neg (by rintro rfl; simp at hc)]
        exact h.walks c
      · show Walks (nextIn s.dirs) (if ChainName.system = .system then s.heads .after else s.heads .system) _
        rw [if_pos rfl, hempty]
        exact h.walks .after
  | some first =>
      obtain ⟨l, tail, hl⟩ : ∃ l tail, L .system = l ++ [tail] := by
        obtain hnil | hconcat := List.eq_nil_or_concat' (L .system)
        · rw [hnil, hhead] at hsystem
          cases hsystem
        · exact hconcat
      have htail : s.tails .system = some tail := by rw [h.tail, hl, List.getLast?_concat]
      have htailmem : tail ∈ L .system := by simp [hl]
      have htaillt := h.lt .system tail htailmem
      have hchanged : ChangedIn [tail] s.dirs (s.dirs.modify tail fun dir => { dir with next := s.heads .after }) :=
        .modify List.mem_cons_self s.dirs fun _ => rfl
      have hother : ∀ c, c ≠ .system → Walks (nextIn (s.setNext tail (s.heads .after)).dirs) (s.heads c) (L c) := by
        intro c hc
        refine hchanged.walks (h.walks c) fun i hi hi' => ?_
        exact h.apart c .system hc i hi (List.mem_singleton.mp hi' ▸ htailmem)
      have hself : nextIn (s.setNext tail (s.heads .after)).dirs tail = s.heads .after := by
        rw [nextIn, setNext, List.getElem?_modify_eq, List.getElem?_eq_getElem htaillt]
        rfl
      rw [htail]
      refine ⟨_, rfl, ⟨hchanged.length, hchanged.name, hchanged.placeOf, rfl, fun c hc => ?_⟩, ?_⟩
      · exact hother c (by rintro rfl; simp at hc)
      · rw [hl] at hsystem
        rw [hl, List.append_assoc, List.singleton_append]
        refine hsystem.redirect (fun i hi => ?_) hself (hother .after (by decide))
        have hi' : i ∉ [tail] := fun hmem =>
          (List.nodup_append.mp hsystem.nodup).2.2 i hi tail List.mem_cons_self (List.mem_singleton.mp hmem)
        exact congrArg (·.bind IncDir.next) (hchanged.frame i hi')

/-- **One call of `remove_duplicates`.** The chain `c`, which is `l`, loses its duplicates and is joined to `J`; chains
    without nodes of `l` stay as they are. -/
theorem Merging.removeFrom {s' : IncPath} {todo : List ChainName} (h : Merging stat s L todo s') {c : ChainName}
    {l S J : List Nat} {system join : Option Nat} (hl : Walks (nextIn s'.dirs) (s'.heads c) l)
    (hlt : ∀ i ∈ l, i < s.dirs.length) (hothers : Others stat s'.dirs l system join S J) (todo' : List ChainName)
    (htodo : ∀ d ∈ todo', d ∈ todo ∧ d ≠ c ∧ ∀ i ∈ L d, i ∉ l) :
    ∃ s'', s'.removeFrom stat c system join = some s'' ∧ Merging stat s L todo' s'' ∧
      Walks (nextIn s''.dirs) (s''.heads c) (keeps stat s.dirs S J [] l ++ J) ∧
      (∀ i ∈ keeps stat s.dirs S J [] l, Noted stat s''.dirs i) ∧
      (∀ i, i ∉ l → Noted stat s'.dirs i → Noted stat s''.dirs i) ∧
      ∀ d l', d ≠ c → (∀ i ∈ l', i ∉ l) → Walks (nextIn s'.dirs) (s'.heads d) l' →
        Walks (nextIn s''.dirs) (s''.heads d) l' := by
  obtain ⟨dirs', head', hremove, hwalks, hchanged, hnoted⟩ :=
    removeDuplicates_spec hl (fun i hi => h.length ▸ hlt i hi) hothers
  have hkeeps : keeps stat s'.dirs S J [] l = keeps stat s.dirs S J [] l := by
    have hplace : placeOf stat s'.dirs = placeOf stat s.dirs := funext h.place
    rw [keeps, keeps, joinPlace, joinPlace, hplace]
  rw [hkeeps] at hwalks hnoted
  have hframe : ∀ d l', d ≠ c → (∀ i ∈ l', i ∉ l) → Walks (nextIn s'.dirs) (s'.heads d) l' →
      Walks (nextIn dirs') (if d = c then head' else s'.heads d) l' := by
    intro d l' hd hl' hwalks'
    rw [if_neg hd]
    exact hchanged.walks hwalks' hl'
  refine ⟨({ s' with dirs := dirs' } : IncPath).setHead c head', ?_, ?_, ?_, hnoted, ?_, hframe⟩
  · rw [IncPath.removeFrom, hremove, Option.map_some]
  · refine ⟨hchanged.length.trans h.length, fun i => (hchanged.name i).trans (h.name i),
      fun i => (hchanged.placeOf i).trans (h.place i), h.quoteIgnoresSourceDir, fun d hd => ?_⟩
    obtain ⟨hold, hne, hapart⟩ := htodo d hd
    exact hframe d (L d) hne hapart (h.pending d hold)
  · show Walks (nextIn dirs') (if c = c then head' else s'.heads c) _
    rw [if_pos rfl]
    exact hwalks
  · exact fun i hi => hchanged.noted hi

/-- **`merge_include_chains`** goes through valid pointers only, and leaves two nested paths and the wrapper chain. -/
theorem Collects.merge (h : s.Collects L) :
    ∃ s' Q B S W, s.mergeIncludeChains stat = some s' ∧ Merged stat s s' L Q B S W := by
  have hsystemApart : ∀ c, c ≠ .system → c ≠ .after → ∀ i ∈ L .system ++ L .after, i ∉ L c := by
    intro c hs ha i hi
    rcases List.mem_append.mp hi with hi | hi
    · exact h.apart .system c hs.symm i hi
    · exact h.apart .after c ha.symm i hi
  have hltSystem : ∀ i ∈ L .system ++ L .after, i < s.dirs.length := by
    intro i hi
    rcases List.mem_append.mp hi with hi | hi
    · exact h.lt .system i hi
    · exact h.lt .after i hi
  -- the system chain, with the after chain behind it
  obtain ⟨s₀, hjoin, hmerging₀, hwalks₀⟩ := h.joinAfter stat
  have hothers₀ : Others stat s₀.dirs (L .system ++ L .after) none none [] [] := ⟨rfl, rfl, nofun, nofun, nofun, nofun⟩
  obtain ⟨s₁, hremove₁, hmerging₁, hS, hnotedS, -, -⟩ :=
    hmerging₀.removeFrom hwalks₀ hltSystem hothers₀ [.bracket, .quote, .wrapper] fun d hd => by
        have hne : d ≠ .system ∧ d ≠ .after := by constructor <;> rintro rfl <;> simp at hd
        exact ⟨hd, hne.1, fun i hi hi' => hsystemApart d hne.1 hne.2 i hi' hi⟩
  rw [List.append_nil] at hS
  generalize hSeq : keeps stat s.dirs [] [] [] (L .system ++ L .after) = S at hS hnotedS
  have hSmem : ∀ i ∈ S, i ∈ L .system ++ L .after := hSeq ▸ keeps_subset
  -- the bracket chain, joined to the system chain
  have hSbracket : ∀ i ∈ S, i ∉ L .bracket := fun i hi => hsystemApart .bracket (by decide) (by decide) i (hSmem i hi)
  obtain ⟨s₂, hremove₂, hmerging₂, hBS, hnotedB, hnoted₂, hframe₂⟩ :=
    hmerging₁.removeFrom (hmerging₁.pending .bracket (by simp)) (h.lt .bracket)
      ⟨hS, hS, hnotedS, hnotedS, hSbracket, hSbracket⟩ [.quote, .wrapper] fun d hd => by
        have hne : d ≠ .bracket := by rintro rfl; simp at hd
        exact ⟨List.mem_cons_of_mem _ hd, hne, h.apart d .bracket hne⟩
  generalize hBeq : keeps stat s.dirs S S [] (L .bracket) = B at hBS hnotedB
  have hBmem : ∀ i ∈ B, i ∈ L .bracket := hBeq ▸ keeps_subset
  have hS₂ := hframe₂ .system S (by decide) hSbracket hS
  have hnotedBS : ∀ i ∈ B ++ S, Noted stat s₂.dirs i := fun i hi =>
    (List.mem_append.mp hi).elim (hnotedB i) fun hi => hnoted₂ i (hSbracket i hi) (hnotedS i hi)
  have hBSapart : ∀ c, c ≠ .system → c ≠ .after → c ≠ .bracket → ∀ i ∈ B ++ S, i ∉ L c := fun c hs ha hb i hi =>
    (List.mem_append.mp hi).elim (fun hi => h.apart .bracket c hb.symm i (hBmem i hi))
      fun hi => hsystemApart c hs ha i (hSmem i hi)
  -- the quote chain, joined to the bracket chain
  have hBSquote := hBSapart .quote (by decide) (by decide) (by decide)
  obtain ⟨s₃, hremove₃, hmerging₃, hQ, hnotedQ, hnoted₃, hframe₃⟩ :=
    hmerging₂.removeFrom (hmerging₂.pending .quote (by simp)) (h.lt .quote)
      ⟨hS₂, hBS, fun i hi => hnotedBS i (List.mem_append_right B hi), hnotedBS,
        fun i hi => hBSquote i (List.mem_append_right B hi), hBSquote⟩ [.wrapper] fun d hd => by
        have hne : d ≠ .quote := by rintro rfl; simp at hd
        exact ⟨List.mem_cons_of_mem _ hd, hne, h.apart d .quote hne⟩
  generalize hQeq : keeps stat s.dirs S (B ++ S) [] (L .quote) = Q at hQ hnotedQ
  have hQmem : ∀ i ∈ Q, i ∈ L .quote := hQeq ▸ keeps_subset
  have hS₃ := hframe₃ .system S (by decide) (fun i hi => hBSquote i (List.mem_append_right B hi)) hS₂
  have hBS₃ := hframe₃ .bracket (B ++ S) (by decide) hBSquote hBS
  have hnotedPath : ∀ i ∈ Q ++ (B ++ S), Noted stat s₃.dirs i := fun i hi =>
    (List.mem_append.mp hi).elim (hnotedQ i) fun hi => hnoted₃ i (hBSquote i hi) (hnotedBS i hi)
  -- the wrapper chain
  have hBSwrapper := hBSapart .wrapper (by decide) (by decide) (by decide)
  have hpathWrapper : ∀ i ∈ Q ++ (B ++ S), i ∉ L .wrapper := fun i hi =>
    (List.mem_append.mp hi).elim (fun hi => h.apart .quote .wrapper (by decide) i (hQmem i hi)) (hBSwrapper i)
  have hothers₃ : Others stat s₃.dirs (L .wrapper) (s₃.heads .system) none S [] :=
    ⟨hS₃, rfl, fun i hi => hnotedPath i (List.mem_append_right Q (List.mem_append_right B hi)), nofun,
      fun i hi => hBSwrapper i (List.mem_append_right B hi), nofun⟩
  obtain ⟨s₄, hremove₄, hmerging₄, hW, hnotedW, hnoted₄, hframe₄⟩ :=
    hmerging₃.removeFrom (hmerging₃.pending .wrapper (by simp)) (h.lt .wrapper) hothers₃ [] nofun
  rw [List.append_nil] at hW
  generalize hWeq : keeps stat s.dirs S [] [] (L .wrapper) = W at hW hnotedW
  refine ⟨s₄, Q, B, S, W, ?_, hSeq.symm, hBeq.symm, hQeq.symm, hWeq.symm, ?_, ?_, hW, ?_, hmerging₄.length,
    hmerging₄.name, hmerging₄.quoteIgnoresSourceDir⟩
  · rw [mergeIncludeChains, hjoin]
    simp only [Option.bind_eq_bind, Option.bind_some, hremove₁, hremove₂, hremove₃, hremove₄]
  · exact hframe₄ .quote _ (by decide) hpathWrapper hQ
  · exact hframe₄ .bracket _ (by decide) hBSwrapper hBS₃
  · exact fun i hi => (List.mem_append.mp hi).elim (fun hi => hnoted₄ i (hpathWrapper i hi) (hnotedPath i hi)) (hnotedW i)

/-! ## What is searched -/

/-- The directories that some names stand for. -/
def placesOf (stat : Path → DirStat) (names : List Path) : List (Nat × Nat) := names.filterMap fun name => (stat name).place

theorem placesOf_namesOf (stat : Path → DirStat) (dirs : List IncDir) (l : List Nat) :
    placesOf stat (namesOf dirs l) = l.filterMap (placeOf stat dirs) := by
  rw [placesOf, namesOf, List.filterMap_filterMap]
  refine List.filterMap_congr fun i _ => ?_
  unfold placeOf
  cases dirs[i]? <;> rfl

theorem placesOf_append (stat : Path → DirStat) (names names' : List Path) :
    placesOf stat (names ++ names') = placesOf stat names ++ placesOf stat names' := List.filterMap_append

/-- The directories of `names`, without those of `excluded`. -/
def placesWithout (stat : Path → DirStat) (excluded names : List Path) : List (Nat × Nat) :=
  (placesOf stat names).filter (· ∉ placesOf stat excluded)

/-- The system directories that are asked for. -/
def systemNames (a : Asked) : List Path := a.names .system ++ a.names .after

/-- **The paths that are registered.** They are walked to their ends, have no node in common with the wrapper chain, and
    name existing directories only: none of them twice among those of one kind and the system ones. A search in them finds
    what one in the directories that were asked for finds, each kind in its order, when those of the user that are system
    directories are left out before. -/
structure SearchPaths (stat : Path → DirStat) (a : Asked) (s' : IncPath) (Q B S W : List Nat) : Prop where
  quote : Walks (nextIn s'.dirs) (s'.heads .quote) (Q ++ (B ++ S))
  bracket : Walks (nextIn s'.dirs) (s'.heads .bracket) (B ++ S)
  wrapper : Walks (nextIn s'.dirs) (s'.heads .wrapper) W
  apart : ∀ i ∈ Q ++ (B ++ S), i ∉ W
  noted : ∀ i ∈ Q ++ (B ++ S) ++ W, Noted stat s'.dirs i
  quoteIgnoresSourceDir : s'.quoteIgnoresSourceDir = a.quoteIgnoresSourceDir
  /-- What `cpp_set_include_chains` keeps as the wrapper tail is the last of the wrapper directories. -/
  wrapperLast : s'.toReader.wrapperIncludeLast = W.getLast?.map .node
  quoteOnce : ((Q ++ S).filterMap (placeOf stat s'.dirs)).Nodup
  bracketOnce : ((B ++ S).filterMap (placeOf stat s'.dirs)).Nodup
  wrapperOnce : ((W ++ S).filterMap (placeOf stat s'.dirs)).Nodup
  quoteSearch : ∀ p : Nat × Nat → Bool, ((Q ++ (B ++ S)).filterMap (placeOf stat s'.dirs)).find? p =
    (placesWithout stat (systemNames a) (a.names .quote) ++ placesWithout stat (systemNames a) (a.names .bracket) ++
      placesOf stat (systemNames a)).find? p
  bracketSearch : ∀ p : Nat × Nat → Bool, ((B ++ S).filterMap (placeOf stat s'.dirs)).find? p =
    (placesWithout stat (systemNames a) (a.names .bracket) ++ placesOf stat (systemNames a)).find? p
  wrapperSearch : ∀ p : Nat × Nat → Bool, (W.filterMap (placeOf stat s'.dirs)).find? p =
    (placesWithout stat (systemNames a) (a.names .wrapper)).find? p

/-- Lists in which every search finds the same have the same members. -/
theorem mem_of_find?_eq {α : Type} [DecidableEq α] {l l' : List α} (h : ∀ p : α → Bool, l.find? p = l'.find? p) (a : α) :
    a ∈ l ↔ a ∈ l' := by
  have hmem : ∀ l : List α, a ∈ l ↔ (l.find? (· = a)).isSome = true := by
    intro l
    rw [List.find?_isSome]
    constructor
    · exact fun ha => ⟨a, ha, decide_eq_true rfl⟩
    · rintro ⟨b, hb, heq⟩
      exact of_decide_eq_true heq ▸ hb
  rw [hmem, hmem, h]

theorem find?_append_congr {α : Type} {l l' : List α} {p : α → Bool} (h : l.find? p = l'.find? p) (k : List α) :
    (k ++ l).find? p = (k ++ l').find? p := by
  rw [List.find?_append, List.find?_append, h]

/-- The places of a chain that lost its duplicates, with the chain that it was joined to. -/
theorem find?_keeps {dirs : List IncDir} {S J l : List Nat} (p : Nat × Nat → Bool) :
    ((keeps stat dirs S J [] l ++ J).filterMap (placeOf stat dirs)).find? p =
      ((l.filterMap (placeOf stat dirs)).filter (· ∉ S.filterMap (placeOf stat dirs)) ++
        J.filterMap (placeOf stat dirs)).find? p := by
  have hjoin : ∀ a, joinPlace stat dirs J = some a → (J.filterMap (placeOf stat dirs)).head? = some a := by
    intro a ha
    cases J with
    | nil => cases ha
    | cons j J =>
        rw [List.filterMap_cons_some (show placeOf stat dirs j = some a from ha)]
        rfl
  rw [List.filterMap_append, keeps]
  have hfind := @find?_keepFirst _ _ _ (placeOf stat dirs) (S.filterMap (placeOf stat dirs)) (joinPlace stat dirs J) []
    l p _ hjoin
  rw [List.filterMap_nil, List.nil_append] at hfind
  -- the two sides decide membership by different instances
  convert hfind

theorem nodup_keeps {dirs : List IncDir} {S J l : List Nat} (hS : (S.filterMap (placeOf stat dirs)).Nodup) :
    ((keeps stat dirs S J [] l ++ S).filterMap (placeOf stat dirs)).Nodup := by
  obtain ⟨-, hnodup, hexcluded⟩ := @keepFirst_places _ _ _ (placeOf stat dirs) (S.filterMap (placeOf stat dirs))
    (joinPlace stat dirs J) [] l (by simp) List.nodup_nil (by simp)
  rw [List.filterMap_append, List.nodup_append]
  refine ⟨hnodup, hS, ?_⟩
  rintro a ha b hb rfl
  exact hexcluded a ha hb

/-! ### The reader -/

section

variable {s' : IncPath}

/-- The chains of the reader are those that were registered. -/
theorem walks_toReader {p : Option Nat} {l : List Nat} (h : Walks (nextIn s'.dirs) p l) :
    Walks s'.toReader.next (p.map .node) (l.map .node) := by
  induction l generalizing p with
  | nil =>
      rw [walks_nil.mp h]
      rfl
  | cons i l ih =>
      refine ⟨by rw [h.1]; rfl, ?_⟩
      have hnext : s'.toReader.next (.node i) = (nextIn s'.dirs i).map .node := by
        show CppDir.next (List.getD (s'.dirs.map _) i default) = _
        rw [nextIn, List.getD_eq_getElem?_getD, List.getElem?_map]
        cases s'.dirs[i]? <;> rfl
      rw [hnext]
      exact ih h.2

theorem length_toReader : s'.toReader.dirs.length = s'.dirs.length := List.length_map ..

/-- **The wrapper tail** is the last node of the wrapper chain. -/
theorem wrapperIncludeLast_toReader {W : List Nat} (h : Walks (nextIn s'.dirs) (s'.heads .wrapper) W)
    (hlt : ∀ i ∈ W, i < s'.dirs.length) : s'.toReader.wrapperIncludeLast = W.getLast?.map .node := by
  have hwalks := walks_toReader h
  have hlength : (W.map DirRef.node).length ≤ s'.toReader.dirs.length :=
    length_le_dirs hwalks.nodup fun d hd => by
      obtain ⟨i, hi, rfl⟩ := List.mem_map.mp hd
      exact ⟨i, rfl, length_toReader ▸ hlt i hi⟩
  obtain ⟨r₀, hnext, hdirs, hlast⟩ : ∃ r₀ : Reader, r₀.next = s'.toReader.next ∧ r₀.dirs = s'.toReader.dirs ∧
      s'.toReader.wrapperIncludeLast = (r₀.walk r₀.dirs.length ((s'.heads .wrapper).map .node)).getLast? :=
    ⟨{ dirs := s'.dirs.map fun dir => ⟨dir.next.map .node, dir.name, dir.sysp, none⟩ },
      funext fun d => by cases d <;> rfl, rfl, rfl⟩
  rw [hlast, walk_eq (hnext ▸ hwalks) (hdirs ▸ hlength), List.getLast?_map]

end

/-! ### The chains that were merged -/

section

variable {s' : IncPath} {Q B S W : List Nat}

theorem Merged.wrapper_apart (hmerged : Merged stat s s' L Q B S W) (h : s.Collects L) : ∀ i ∈ Q ++ (B ++ S), i ∉ W := by
  intro i hi hW
  have hWmem : i ∈ L .wrapper := keeps_subset i (hmerged.wrapper_eq ▸ hW)
  rw [List.mem_append, List.mem_append] at hi
  rcases hi with hi | hi | hi
  · exact h.apart .wrapper .quote (by decide) i hWmem (keeps_subset i (hmerged.quote_eq ▸ hi))
  · exact h.apart .wrapper .bracket (by decide) i hWmem (keeps_subset i (hmerged.bracket_eq ▸ hi))
  · have hSmem : i ∈ L .system ++ L .after := keeps_subset i (hmerged.system_eq ▸ hi)
    rcases List.mem_append.mp hSmem with hi | hi
    · exact h.apart .wrapper .system (by decide) i hWmem hi
    · exact h.apart .wrapper .after (by decide) i hWmem hi

theorem Merged.nodup_system (hmerged : Merged stat s s' L Q B S W) : (S.filterMap (placeOf stat s.dirs)).Nodup := by
  have hnodup := @nodup_keeps stat s.dirs [] [] (L .system ++ L .after) List.nodup_nil
  rw [List.append_nil, ← hmerged.system_eq] at hnodup
  exact hnodup

/-- A search in the system chain is one in the system directories that are asked for. -/
theorem Merged.find?_system (hmerged : Merged stat s s' L Q B S W) (hnames : ∀ c, namesOf s.dirs (L c) = a.names c)
    (p : Nat × Nat → Bool) :
    (S.filterMap (placeOf stat s.dirs)).find? p = (placesOf stat (systemNames a)).find? p := by
  have hall : ∀ l : List (Nat × Nat), l.filter (fun a => decide (a ∉ ([] : List (Nat × Nat)))) = l := fun l =>
    List.filter_eq_self.mpr fun a _ => decide_eq_true List.not_mem_nil
  have hfind := @find?_keeps stat s.dirs [] [] (L .system ++ L .after) p
  rw [List.append_nil, ← hmerged.system_eq, List.filterMap_nil, List.append_nil, hall, List.filterMap_append] at hfind
  rw [hfind, systemNames, placesOf_append, ← hnames, ← hnames, placesOf_namesOf, placesOf_namesOf]

/-- What a chain of the user has besides the system chain. -/
theorem Merged.filter_system (hmerged : Merged stat s s' L Q B S W) (hnames : ∀ c, namesOf s.dirs (L c) = a.names c)
    (c : ChainName) :
    ((L c).filterMap (placeOf stat s.dirs)).filter (· ∉ S.filterMap (placeOf stat s.dirs)) =
      placesWithout stat (systemNames a) (a.names c) := by
  have hmem : ∀ place, place ∈ S.filterMap (placeOf stat s.dirs) ↔ place ∈ placesOf stat (systemNames a) :=
    mem_of_find?_eq (hmerged.find?_system hnames)
  rw [placesWithout, ← hnames c, placesOf_namesOf]
  exact List.filter_congr fun a _ => decide_eq_decide.mpr (not_congr (hmem a))

theorem Merged.find?_bracket (hmerged : Merged stat s s' L Q B S W) (hnames : ∀ c, namesOf s.dirs (L c) = a.names c)
    (p : Nat × Nat → Bool) :
    ((B ++ S).filterMap (placeOf stat s.dirs)).find? p =
      (placesWithout stat (systemNames a) (a.names .bracket) ++ placesOf stat (systemNames a)).find? p := by
  rw [hmerged.bracket_eq, find?_keeps, hmerged.filter_system hnames]
  exact find?_append_congr (hmerged.find?_system hnames p) _

theorem Merged.find?_quote (hmerged : Merged stat s s' L Q B S W) (hnames : ∀ c, namesOf s.dirs (L c) = a.names c)
    (p : Nat × Nat → Bool) :
    ((Q ++ (B ++ S)).filterMap (placeOf stat s.dirs)).find? p =
      (placesWithout stat (systemNames a) (a.names .quote) ++ placesWithout stat (systemNames a) (a.names .bracket) ++
        placesOf stat (systemNames a)).find? p := by
  rw [hmerged.quote_eq, find?_keeps, hmerged.filter_system hnames, List.append_assoc]
  exact find?_append_congr (hmerged.find?_bracket hnames p) _

theorem Merged.find?_wrapper (hmerged : Merged stat s s' L Q B S W) (hnames : ∀ c, namesOf s.dirs (L c) = a.names c)
    (p : Nat × Nat → Bool) :
    (W.filterMap (placeOf stat s.dirs)).find? p = (placesWithout stat (systemNames a) (a.names .wrapper)).find? p := by
  have hfind := @find?_keeps stat s.dirs S [] (L .wrapper) p
  rw [List.append_nil, ← hmerged.wrapper_eq, hmerged.filter_system hnames, List.filterMap_nil, List.append_nil] at hfind
  exact hfind

/-- **`merge_include_chains`** registers search paths for the directories that were collected. -/
theorem Collects.searchPaths (h : s.Collects L) (hmerged : Merged stat s s' L Q B S W)
    (hnames : ∀ c, namesOf s.dirs (L c) = a.names c) (hignores : s.quoteIgnoresSourceDir = a.quoteIgnoresSourceDir) :
    SearchPaths stat a s' Q B S W := by
  have hplace : placeOf stat s'.dirs = placeOf stat s.dirs := funext fun i => placeOf_congr (hmerged.name i)
  have hlt : ∀ i ∈ W, i < s'.dirs.length := fun i hi => lt_of_noted (hmerged.noted i (List.mem_append_right _ hi))
  refine ⟨hmerged.quote, hmerged.bracket, hmerged.wrapper, hmerged.wrapper_apart h, hmerged.noted,
    hmerged.quoteIgnoresSourceDir.trans hignores, wrapperIncludeLast_toReader hmerged.wrapper hlt, ?_, ?_, ?_, ?_, ?_, ?_⟩
  -- from here on the heap may be the one before the merge
  all_goals rw [hplace]
  · rw [hmerged.quote_eq]
    exact nodup_keeps hmerged.nodup_system
  · rw [hmerged.bracket_eq]
    exact nodup_keeps hmerged.nodup_system
  · rw [hmerged.wrapper_eq]
    exact nodup_keeps hmerged.nodup_system
  · exact hmerged.find?_quote hnames
  · exact hmerged.find?_bracket hnames
  · exact hmerged.find?_wrapper hnames

end

/-- **The search paths of a command line.** Whatever the options, the environment and the directories of the system are,
`register_include_chains` follows valid pointers only, and it registers search paths for what the command line asks for. -/
theorem searchPaths_ofOptions (config : IncConfig) (options : List IncOption) :
    ∃ s' Q B S W, ofOptions config options = some s' ∧ SearchPaths config.stat (asked config options) s' Q B S W := by
  have hasks := asks_collect config options
  obtain ⟨L, hL, hnames⟩ := hasks.names
  obtain ⟨s', Q, B, S, W, hmerge, hmerged⟩ := @Collects.merge _ L config.stat hL
  exact ⟨s', Q, B, S, W, (ofOptions_eq config options).trans hmerge,
    hL.searchPaths hmerged hnames hasks.quoteIgnoresSourceDir⟩

end IncPath

end Cpp

end GccXml
