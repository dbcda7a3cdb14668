import GccXml.Front.PrintColumn

namespace GccXml

/-! # `Front.WordWrap` — `PrintColumn` wraps words faithfully

On a text without newlines the loop of `PrintColumn` ends, and what it prints has the words of the text, in lines that
are no wider than the column unless they hold a single word.

A pass takes the next word. If there is room it is printed on the current line behind one or two spaces, and otherwise
on a new line behind the indent; the blanks after it are skipped. The state of the source is the rest of the text, the
column, and whether a sentence has ended. The invariant `Wrapping` says what this means: what was printed are the lines
`done` and a line of the words `cur`, these words and those of the rest are the words of the text, the column is the
length of the current line, and every line fits or has one word.

A pass shortens the rest, so the loop ends, and at the end of the text the invariant is the statement. The room that a
word needs is counted with the wider gap after a sentence, and a word is put on a line that has nothing on it in any
case: this is where lines of a single word come from. -/

/-! ## Lines of words -/

/-- The blanks between a word and the next one on its line. -/
def gapAfter (w : List Char) : List Char := if endsSentence w then [' ', ' '] else [' ']

/-- The words of a line, with the blanks between them. -/
def joinWords : List (List Char) → List Char
  | [] => []
  | [w] => w
  | w :: v :: ws => w ++ (gapAfter w ++ joinWords (v :: ws))

/-- A line that holds words with the right blanks between them and is no wider than `width`, or holds one word. -/
structure IsLine (width : Int) (line : List Char) : Prop where
  separated : line = joinWords (splitWords line)
  fits : (line.length : Int) ≤ width ∨ (splitWords line).length = 1

/-- `out` is `text` wrapped at `width`, with `indent` in front of every line but the first. -/
structure FaithfulWrap (width : Int) (indent text out : List Char) : Prop where
  words : splitWords out = splitWords text
  lines : ∃ first rest, out.splitOn '\n' = first :: rest ∧ IsLine width first ∧
    ∀ line ∈ rest, ∃ content, line = indent ++ content ∧ IsLine width content

/-- A line ends in the end of a sentence. -/
def lineEndsSentence (ws : List (List Char)) : Bool := ws.getLast?.any endsSentence

/-- What stands between a line and one more word on it. -/
def gapOf (ws : List (List Char)) : List Char :=
  if ws = [] then [] else List.replicate (if lineEndsSentence ws then 2 else 1) ' '

theorem joinWords_concat (ws : List (List Char)) (w : List Char) :
    joinWords (ws ++ [w]) = joinWords ws ++ gapOf ws ++ w := by
  induction ws with
  | nil => rfl
  | cons v ws ih =>
      cases ws with
      | nil => cases h : endsSentence v <;> simp [joinWords, gapAfter, gapOf, lineEndsSentence, h, List.replicate_succ]
      | cons u ws =>
          have hends : lineEndsSentence (v :: u :: ws) = lineEndsSentence (u :: ws) := by simp [lineEndsSentence]
          have hgap : gapOf (v :: u :: ws) = gapOf (u :: ws) := by
            rw [gapOf, gapOf, hends, if_neg (List.cons_ne_nil _ _), if_neg (List.cons_ne_nil _ _)]
          rw [List.cons_append, List.cons_append, joinWords, ← List.cons_append, ih, hgap, joinWords]
          simp

theorem isBreak_of_mem_gapAfter (w : List Char) : ∀ c ∈ gapAfter w, isBreak c = true := by
  unfold gapAfter
  split <;> simp [isBreak]

/-- The words of a line are read back from it. -/
theorem splitWords_joinWords {ws : List (List Char)} (h : ∀ w ∈ ws, IsWord w) : splitWords (joinWords ws) = ws := by
  induction ws with
  | nil => rfl
  | cons w ws ih =>
      have hw := h w (List.mem_cons_self ..)
      have hws := ih fun v hv => h v (List.mem_cons_of_mem _ hv)
      cases ws with
      | nil => exact splitWords_word hw
      | cons v ws =>
          obtain ⟨c, bs, hgap⟩ : ∃ c bs, gapAfter w = c :: bs := by
            unfold gapAfter
            split <;> exact ⟨_, _, rfl⟩
          have hbreaks := isBreak_of_mem_gapAfter w
          rw [hgap] at hbreaks
          rw [joinWords, hgap, List.cons_append, splitWords_word_append hw (hbreaks c (List.mem_cons_self ..)),
            splitWords_breaks_append fun d hd => hbreaks d (List.mem_cons_of_mem _ hd), hws]

theorem newline_notMem_joinWords {ws : List (List Char)} (h : ∀ w ∈ ws, IsWord w) : '\n' ∉ joinWords ws := by
  induction ws with
  | nil => simp [joinWords]
  | cons w ws ih =>
      have hw : '\n' ∉ w := fun hmem => absurd ((h w (List.mem_cons_self ..)).noBreak _ hmem) (by decide)
      have hws := ih fun v hv => h v (List.mem_cons_of_mem _ hv)
      cases ws with
      | nil => exact hw
      | cons v ws =>
          have hgap : '\n' ∉ gapAfter w := by unfold gapAfter; split <;> decide
          simp only [joinWords, List.mem_append, not_or]
          exact ⟨hw, hgap, hws⟩

theorem joinWords_ne_nil {ws : List (List Char)} (hne : ws ≠ []) (h : ∀ w ∈ ws, IsWord w) : joinWords ws ≠ [] := by
  intro hnil
  have hwords := splitWords_joinWords h
  rw [hnil, splitWords_nil] at hwords
  exact hne hwords.symm

/-! ## Lines of output -/

/-- The text of the lines `ls`. -/
def printLines (indent : List Char) (ls : List (List (List Char))) : List Char :=
  ('\n' :: indent).intercalate (ls.map joinWords)

theorem printLines_cons_cons (indent : List Char) (l m : List (List Char)) (ls : List (List (List Char))) :
    printLines indent (l :: m :: ls) = joinWords l ++ '\n' :: (indent ++ printLines indent (m :: ls)) := by
  simp [printLines, List.intercalate_cons_cons]

theorem printLines_singleton (indent : List Char) (l : List (List Char)) : printLines indent [l] = joinWords l := by
  simp [printLines]

/-- One more line. -/
theorem printLines_newLine (indent : List Char) (ls : List (List (List Char))) (l m : List (List Char)) :
    printLines indent (ls ++ [l] ++ [m]) = printLines indent (ls ++ [l]) ++ ['\n'] ++ indent ++ joinWords m := by
  induction ls with
  | nil =>
      rw [List.nil_append, List.singleton_append, printLines_cons_cons, printLines_singleton, printLines_singleton]
      simp
  | cons k ls ih =>
      obtain ⟨j, js, hj⟩ : ∃ j js, ls ++ [l] = j :: js := List.exists_cons_of_ne_nil (by simp)
      rw [hj, List.cons_append] at ih
      rw [List.cons_append, List.cons_append, hj, List.cons_append, printLines_cons_cons, printLines_cons_cons, ih]
      simp

/-- One more word on the last line. -/
theorem printLines_word (indent : List Char) (ls : List (List (List Char))) (l : List (List Char)) (w : List Char) :
    printLines indent (ls ++ [l ++ [w]]) = printLines indent (ls ++ [l]) ++ gapOf l ++ w := by
  induction ls with
  | nil => rw [List.nil_append, List.nil_append, printLines_singleton, printLines_singleton, joinWords_concat]
  | cons k ls ih =>
      obtain ⟨j, js, hj⟩ : ∃ j js, ls ++ [l] = j :: js := List.exists_cons_of_ne_nil (by simp)
      obtain ⟨i, is, hi⟩ : ∃ i is, ls ++ [l ++ [w]] = i :: is := List.exists_cons_of_ne_nil (by simp)
      rw [List.cons_append, List.cons_append, hi, hj, printLines_cons_cons, printLines_cons_cons, ← hi, ← hj, ih]
      simp

/-- The words of the lines are read back from their text. -/
theorem splitWords_printLines {indent : List Char} (hindent : ∀ c ∈ indent, c = ' ') {ls : List (List (List Char))}
    (h : ∀ l ∈ ls, ∀ w ∈ l, IsWord w) : splitWords (printLines indent ls) = ls.flatten := by
  induction ls with
  | nil => rfl
  | cons l ls ih =>
      have hl := splitWords_joinWords (h l (List.mem_cons_self ..))
      have hls := ih fun m hm => h m (List.mem_cons_of_mem _ hm)
      cases ls with
      | nil => rw [printLines_singleton, hl, List.flatten_singleton]
      | cons m ls =>
          have hbreaks : ∀ c ∈ indent, isBreak c = true := by
            intro c hc
            rw [hindent c hc]
            decide
          rw [printLines_cons_cons, splitWords_append_break (by decide), hl, splitWords_breaks_append hbreaks, hls,
            ← List.flatten_cons]

theorem printLines_eq_intercalate (indent : List Char) (l : List (List Char)) (ls : List (List (List Char))) :
    printLines indent (l :: ls) = ['\n'].intercalate (joinWords l :: ls.map fun m => indent ++ joinWords m) := by
  induction ls generalizing l with
  | nil => rw [printLines_singleton]; simp
  | cons m ls ih =>
      rw [printLines_cons_cons, ih m, List.map_cons, List.intercalate_cons_cons]
      cases ls with
      | nil => simp
      | cons k ls => simp [List.intercalate_cons_cons]

/-- The lines are read back from their text. -/
theorem splitOn_printLines {indent : List Char} (hindent : ∀ c ∈ indent, c = ' ') {l : List (List Char)}
    {ls : List (List (List Char))} (h : ∀ m ∈ l :: ls, ∀ w ∈ m, IsWord w) :
    (printLines indent (l :: ls)).splitOn '\n' = joinWords l :: ls.map fun m => indent ++ joinWords m := by
  have hnewline : '\n' ∉ indent := fun hmem => absurd (hindent _ hmem) (by decide)
  rw [printLines_eq_intercalate, List.splitOn_intercalate '\n' _ (List.cons_ne_nil _ _)]
  intro line hline
  rcases List.mem_cons.mp hline with rfl | hline
  · exact newline_notMem_joinWords (h l (List.mem_cons_self ..))
  · obtain ⟨m, hm, rfl⟩ := List.mem_map.mp hline
    rw [List.mem_append, not_or]
    exact ⟨hnewline, newline_notMem_joinWords (h m (List.mem_cons_of_mem _ hm))⟩

/-- A line of words that is no wider than `width`, or is one word. -/
structure LineFits (width : Int) (l : List (List Char)) : Prop where
  isWord : ∀ w ∈ l, IsWord w
  fits : ((joinWords l).length : Int) ≤ width ∨ l.length = 1

theorem LineFits.isLine {width : Int} {l : List (List Char)} (h : LineFits width l) :
    IsLine width (joinWords l) := by
  have hwords := splitWords_joinWords h.isWord
  exact ⟨by rw [hwords], by rw [hwords]; exact h.fits⟩

/-! ## The loop -/

/-- What holds whenever `while(*l)` is tested: the lines before the current one are `done`, and the words of the
current one are `cur`. -/
structure Wrapping (width : Int) (indent text : List Char) (s : ColumnState) (done : List (List (List Char)))
    (cur : List (List Char)) : Prop where
  os : s.os = printLines indent (done ++ [cur])
  words : splitWords text = (done ++ [cur]).flatten ++ splitWords s.l
  lines : ∀ l ∈ done ++ [cur], LineFits width l
  caret : s.caret = ⟨(joinWords cur).length, lineEndsSentence cur⟩
  /-- Only the first line is ever empty. -/
  started : cur = [] → s.first = true
  noNewline : '\n' ∉ s.l
  /-- Blanks stand at the cursor only at the start. -/
  blank : ∀ r, s.l = ' ' :: r → cur = []

theorem wrapping_start {width : Int} (hwidth : 0 < width) (indent : List Char) {text : List Char}
    (hnewline : '\n' ∉ text) : Wrapping width indent text ⟨text, 0, false, true, []⟩ [] [] where
  os := rfl
  words := rfl
  lines := by
    intro l hl
    rw [List.mem_singleton.mp hl]
    exact ⟨by simp, .inl (by simpa [joinWords] using Int.le_of_lt hwidth)⟩
  caret := rfl
  started := fun _ => rfl
  noNewline := hnewline
  blank := fun _ _ => rfl

theorem skipBlanks_notMem {l : List Char} (h : '\n' ∉ l) : '\n' ∉ skipBlanks l :=
  fun hmem => h ((List.dropWhile_suffix _).subset hmem)

theorem skipBlanks_ne_blank (l r : List Char) : skipBlanks l ≠ ' ' :: r := by
  intro he
  have hhead := List.head?_dropWhile_not (· = ' ') l
  rw [← skipBlanks, he] at hhead
  simp at hhead

theorem splitWords_skipBlanks (l : List Char) : splitWords (skipBlanks l) = splitWords l := by
  induction l with
  | nil => rfl
  | cons c l ih =>
      by_cases hc : c = ' '
      · rw [skipBlanks, List.dropWhile_cons_of_pos (by simpa using hc), ← skipBlanks, ih, hc,
          splitWords_cons_break (by decide)]
      · rw [skipBlanks, List.dropWhile_cons_of_neg (by simpa using hc)]

theorem splitWords_word_rest {w rest : List Char} (hw : IsWord w) (hbreak : AtBreak rest) :
    splitWords (w ++ rest) = w :: splitWords rest := by
  cases rest with
  | nil => rw [List.append_nil, splitWords_word hw, splitWords_nil]
  | cons c rest =>
      have hc := hbreak c rfl
      rw [splitWords_word_append hw hc, splitWords_cons_break hc]

namespace Wrapping

variable {width : Int} {indent text : List Char} {s : ColumnState} {done : List (List (List Char))}
  {cur : List (List Char)}

theorem isWord_cur (h : Wrapping width indent text s done cur) : ∀ w ∈ cur, IsWord w :=
  (h.lines cur (by simp)).isWord

/-- The column is zero only on the empty first line. -/
theorem column_eq_zero (h : Wrapping width indent text s done cur) : s.column = 0 ↔ cur = [] := by
  have hcolumn : s.column = (joinWords cur).length := congrArg Caret.column h.caret
  rw [hcolumn, List.length_eq_zero_iff]
  constructor
  · intro hnil
    by_contra hne
    exact joinWords_ne_nil hne h.isWord_cur hnil
  · rintro rfl
    rfl

/-- Between two words on a line stands what the line needs there. -/
theorem between_eq (h : Wrapping width indent text s done cur) : s.between indent = gapOf cur := by
  have hsentence : s.newSentence = lineEndsSentence cur := congrArg Caret.newSentence h.caret
  unfold ColumnState.between gapOf
  by_cases hcur : cur = []
  · rw [if_neg (not_not.mpr (h.column_eq_zero.mpr hcur)), if_pos (h.started hcur), if_pos hcur]
  · have hcolumn : s.column ≠ 0 := fun hz => hcur (h.column_eq_zero.mp hz)
    rw [if_pos hcolumn, if_neg hcur, ← hsentence]
    exact congrArg (List.replicate · ' ') (if_neg hcolumn)

/-- The blanks before the next word are as many as the caret says. -/
theorem gap_eq (h : Wrapping width indent text s done cur) : s.caret.gap = (gapOf cur).length := by
  have hsentence : s.newSentence = lineEndsSentence cur := congrArg Caret.newSentence h.caret
  unfold Caret.gap gapOf
  by_cases hcur : cur = []
  · have hcolumn : s.caret.column = 0 := h.column_eq_zero.mpr hcur
    rw [if_pos hcolumn, if_pos hcur, List.length_nil]
  · have hcolumn : s.caret.column ≠ 0 := fun hz => hcur (h.column_eq_zero.mp hz)
    rw [if_neg hcolumn, if_neg hcur, List.length_replicate, ← hsentence]
    rfl

/-- Blanks are skipped. -/
theorem pass_blank (h : Wrapping width indent text s done cur) (hwidth : 0 < width) {r : List Char}
    (hl : s.l = ' ' :: r) :
    ∃ s', columnPass width indent s = .again s' ∧ s'.l = skipBlanks s.l ∧ Wrapping width indent text s' done cur := by
  have hword : nextWord s.l = [] := by rw [hl]; exact nextWord_break (by decide) r
  have hafter : afterWord s.l = ' ' :: r := by rw [hl]; exact afterWord_break (by decide) r
  have hcur := h.blank r hl
  subst hcur
  have hfits : s.caret.Fits width (nextWord s.l).length := by
    rw [h.caret, hword]
    simpa [Caret.Fits, joinWords, lineEndsSentence] using hwidth
  have hstate : s.printOnLine indent = { s with l := skipBlanks s.l } := by
    have hskip : skipBlanks s.l = skipBlanks (' ' :: r) := by rw [hl]
    simp [ColumnState.printOnLine, hword, hafter, hskip]
  refine ⟨_, columnPass_of_fits (by rw [hl]; exact List.cons_ne_nil _ _) hfits, by rw [hstate], ?_⟩
  rw [hstate]
  exact ⟨h.os, by rw [splitWords_skipBlanks]; exact h.words, h.lines, h.caret, h.started,
    skipBlanks_notMem h.noNewline, fun r' hr' => rfl⟩

/-- A word that fits is appended to the line. -/
theorem pass_fits (h : Wrapping width indent text s done cur) {w rest : List Char} (hl : s.l = w ++ rest)
    (hw : IsWord w) (hbreak : AtBreak rest) (hfits : s.caret.Fits width w.length) :
    ∃ s', columnPass width indent s = .again s' ∧ s'.l = skipBlanks rest ∧
      Wrapping width indent text s' done (cur ++ [w]) := by
  have hword : nextWord s.l = w := by rw [hl]; exact nextWord_append hw hbreak
  have hnewline : '\n' ∉ rest := fun hmem => h.noNewline (by rw [hl]; exact List.mem_append_right _ hmem)
  have hrest : ∀ r, rest ≠ '\n' :: r := by
    rintro r rfl
    exact hnewline (List.mem_cons_self ..)
  have hstate := printOnLine_word indent hl hw hbreak hrest
  have hlength : (joinWords (cur ++ [w])).length = s.column + s.caret.gap + w.length := by
    rw [joinWords_concat, List.length_append, List.length_append, h.gap_eq]
    exact congrArg (· + _ + _) (congrArg Caret.column h.caret).symm
  refine ⟨_, columnPass_of_fits (by rw [hl]; simp [hw.ne_nil]) (by rw [hword]; exact hfits), by rw [hstate], ?_⟩
  rw [hstate]
  refine ⟨?_, ?_, ?_, ?_, by simp, skipBlanks_notMem hnewline, fun r hr => absurd hr (skipBlanks_ne_blank _ _)⟩
  · rw [printLines_word, ← h.os, h.between_eq]
  · rw [splitWords_skipBlanks, h.words, hl, splitWords_word_rest hw hbreak]
    simp
  · intro l hmem
    rcases List.mem_append.mp hmem with hdone | hlast
    · exact h.lines l (List.mem_append_left _ hdone)
    · rw [List.mem_singleton.mp hlast]
      refine ⟨fun v hv => ?_, .inl ?_⟩
      · rcases List.mem_append.mp hv with hv | hv
        · exact h.isWord_cur v hv
        · rw [List.mem_singleton.mp hv]
          exact hw
      · -- the strict comparison leaves room for the one blank that the test does not count
        rw [hlength]
        unfold Caret.Fits at hfits
        unfold Caret.gap
        have hcaret : s.caret.column = s.column := rfl
        split_ifs at hfits ⊢ <;> push_cast <;> omega
  · simp [ColumnState.caret, hlength, lineEndsSentence]

/-- A word that does not fit starts a new line. -/
theorem pass_not_fits (h : Wrapping width indent text s done cur) {w rest : List Char} (hl : s.l = w ++ rest)
    (hw : IsWord w) (hbreak : AtBreak rest) (hfits : ¬ s.caret.Fits width w.length) :
    ∃ s', columnPass width indent s = .again s' ∧ s'.l = skipBlanks rest ∧
      Wrapping width indent text s' (done ++ [cur]) [w] := by
  have hword : nextWord s.l = w := by rw [hl]; exact nextWord_append hw hbreak
  have hnewline : '\n' ∉ rest := fun hmem => h.noNewline (by rw [hl]; exact List.mem_append_right _ hmem)
  have hstate := printOnNewLine_word indent hl hw hbreak
  refine ⟨_, columnPass_of_not_fits (by rw [hl]; simp [hw.ne_nil]) (by rw [hword]; exact hfits), by rw [hstate], ?_⟩
  rw [hstate]
  refine ⟨?_, ?_, ?_, ?_, by simp, skipBlanks_notMem hnewline, fun r hr => absurd hr (skipBlanks_ne_blank _ _)⟩
  · rw [printLines_newLine, ← h.os]
    rfl
  · rw [splitWords_skipBlanks, h.words, hl, splitWords_word_rest hw hbreak]
    simp
  · intro l hmem
    rcases List.mem_append.mp hmem with hdone | hlast
    · exact h.lines l hdone
    · rw [List.mem_singleton.mp hlast]
      exact ⟨by simpa using hw, .inr rfl⟩
  · simp [ColumnState.caret, joinWords, lineEndsSentence]

/-- **A pass keeps the invariant**, and shortens what is left of the text. -/
theorem pass (h : Wrapping width indent text s done cur) (hwidth : 0 < width) (hl : s.l ≠ []) :
    ∃ s' done' cur', columnPass width indent s = .again s' ∧ s'.l.length < s.l.length ∧
      Wrapping width indent text s' done' cur' := by
  rcases text_cases s.l with hnil | ⟨c, r, hcons, hc⟩ | ⟨w, rest, hword, hw, hbreak⟩
  · exact absurd hnil hl
  · have hblank : c = ' ' := by
      rcases (by simpa [isBreak] using hc : c = ' ' ∨ c = '\n') with rfl | rfl
      · rfl
      · exact absurd (by rw [hcons]; exact List.mem_cons_self ..) h.noNewline
    subst hblank
    obtain ⟨s', hp, hl', hs'⟩ := h.pass_blank hwidth hcons
    refine ⟨s', done, cur, hp, ?_, hs'⟩
    rw [hl', hcons, skipBlanks, List.dropWhile_cons_of_pos (by decide)]
    exact Nat.lt_succ_of_le (List.length_dropWhile_le _ _)
  · have hlen : (skipBlanks rest).length < s.l.length := by
      have hskip : (skipBlanks rest).length ≤ rest.length := List.length_dropWhile_le _ _
      have hpos := List.length_pos_of_ne_nil hw.ne_nil
      rw [hword, List.length_append]
      omega
    by_cases hfits : s.caret.Fits width w.length
    · obtain ⟨s', hp, hl', hs'⟩ := h.pass_fits hword hw hbreak hfits
      exact ⟨s', done, cur ++ [w], hp, by rw [hl']; exact hlen, hs'⟩
    · obtain ⟨s', hp, hl', hs'⟩ := h.pass_not_fits hword hw hbreak hfits
      exact ⟨s', done ++ [cur], [w], hp, by rw [hl']; exact hlen, hs'⟩

/-- At the end of the text the lines are a faithful wrap of it. -/
theorem faithfulWrap (h : Wrapping width indent text s done cur) (hindent : ∀ c ∈ indent, c = ' ')
    (hl : s.l = []) : FaithfulWrap width indent text s.os := by
  obtain ⟨first, rest, hlines⟩ : ∃ first rest, done ++ [cur] = first :: rest :=
    List.exists_cons_of_ne_nil (by simp)
  have hos := h.os
  have hwords := h.words
  have hfits := h.lines
  rw [hlines] at hos hwords hfits
  have hisWord : ∀ l ∈ first :: rest, ∀ w ∈ l, IsWord w := fun l hmem => (hfits l hmem).isWord
  rw [hl, splitWords_nil, List.append_nil] at hwords
  refine ⟨?_, joinWords first, rest.map fun m => indent ++ joinWords m, ?_, ?_, ?_⟩
  · rw [hos, splitWords_printLines hindent hisWord, hwords]
  · rw [hos, splitOn_printLines hindent hisWord]
  · exact (hfits first (List.mem_cons_self ..)).isLine
  · intro line hline
    obtain ⟨m, hm, rfl⟩ := List.mem_map.mp hline
    exact ⟨joinWords m, rfl, (hfits m (List.mem_cons_of_mem _ hm)).isLine⟩

end Wrapping

/-- **`PrintColumn` is a faithful word wrap** of every text without newlines: it ends, and what it prints has the
words of the text, each line but the first with the indent in front, in lines that fit or hold a single word. -/
theorem printColumn_faithfulWrap {width : Int} {indent text : List Char} (hwidth : 0 < width)
    (hindent : ∀ c ∈ indent, c = ' ') (hnewline : '\n' ∉ text) :
    ∃ out, printColumn (text.length + 1) width indent text = some out ∧ FaithfulWrap width indent text out := by
  have hstart : ∃ done cur, Wrapping width indent text ⟨text, 0, false, true, []⟩ done cur :=
    ⟨_, _, wrapping_start hwidth indent hnewline⟩
  -- every pass keeps `Wrapping` and prints at least one word, so the text gets shorter
  have hstep : ∀ s s', (∃ done cur, Wrapping width indent text s done cur) →
      columnPass width indent s = .again s' →
        (∃ done cur, Wrapping width indent text s' done cur) ∧ s'.l.length < s.l.length := by
    rintro s s' ⟨done, cur, h⟩ hp
    have hl : s.l ≠ [] := by
      intro hnil
      rw [columnPass, if_pos hnil] at hp
      cases hp
    obtain ⟨t, done', cur', hp', hlt, ht⟩ := h.pass hwidth hl
    obtain rfl := Pass.again.inj (hp'.symm.trans hp)
    exact ⟨⟨done', cur', ht⟩, hlt⟩
  -- the loop is left at the end of the text only
  have hleave : ∀ s out, (∃ done cur, Wrapping width indent text s done cur) →
      columnPass width indent s = .leave out → FaithfulWrap width indent text out := by
    rintro s out ⟨done, cur, h⟩ hp
    by_cases hl : s.l = []
    · rw [columnPass, if_pos hl] at hp
      rw [← Pass.leave.inj hp]
      exact h.faithfulWrap hindent hl
    · obtain ⟨t, done', cur', hp', -⟩ := h.pass hwidth hl
      rw [hp'] at hp
      cases hp
  obtain ⟨out, hout⟩ := Loop.loopRun_of_variant _ (fun s : ColumnState => s.l.length) hstep hstart
    (Nat.lt_succ_self text.length)
  have hresult : Loop.Result (columnPass width indent) _ out := ⟨_, hout⟩
  exact ⟨out, hout, hresult.invariant (fun s s' h hp => (hstep s s' h hp).1) hleave hstart⟩

theorem printColumn_faithfulWrap_sentences :
    ∃ out, printColumn ("Go. Stop here.".toList.length + 1) 10 [' '] "Go. Stop here.".toList = some out ∧
      FaithfulWrap 10 [' '] "Go. Stop here.".toList out :=
  printColumn_faithfulWrap (by decide) (by simp) (by decide)

end GccXml
