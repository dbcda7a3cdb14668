import GccXml.Lib.Loop
import GccXml.Lib.Words
import Mathlib.Data.List.TakeWhile

namespace GccXml

/-! # `Front.PrintColumn` — text in a column

`gxDocumentation::PrintColumn`. The loop takes a word from the text in each pass and prints it on the current line if
there is room for it, and on a new line otherwise. -/

/-- The variables of `PrintColumn`: the cursor `l`, as the text from it on, and what was written to `os`. -/
structure ColumnState where
  l : List Char
  column : Nat := 0
  newSentence : Bool := false
  first : Bool := true
  os : List Char := []
  deriving DecidableEq

/-- The text of the next word, up to `r`. -/
def nextWord (l : List Char) : List Char := l.takeWhile fun c => c ≠ '\n' && c ≠ ' '

/-- The text from `r` on. -/
def afterWord (l : List Char) : List Char := l.dropWhile fun c => c ≠ '\n' && c ≠ ' '

/-- `while(*l && (*l == ' ')) { ++l; }`. -/
def skipBlanks (l : List Char) : List Char := l.dropWhile (· = ' ')

/-- `*(r-1) == '.'`. -/
def endsSentence (word : List Char) : Bool := word.getLast? = some '.'

namespace ColumnState

/-- What is printed between the previous word and the next one. -/
def separate (indent : List Char) (s : ColumnState) : ColumnState :=
  if s.column ≠ 0 then
    if s.newSentence then { s with os := s.os ++ [' ', ' '], column := s.column + 2 }
    else { s with os := s.os ++ [' '], column := s.column + 1 }
  else { s with os := s.os ++ if s.first then [] else indent }

/-- Print a word. -/
def write (word : List Char) (s : ColumnState) : ColumnState :=
  { s with os := s.os ++ word, newSentence := endsSentence word }

/-- The branch for a word that fits on the line. -/
def printOnLine (indent : List Char) (s : ColumnState) : ColumnState :=
  let word := nextWord s.l
  let s' := if word ≠ [] then (s.separate indent).write word else s
  match afterWord s.l with
  | '\n' :: r => { s' with os := s'.os ++ ['\n'], column := 0, first := false, l := skipBlanks r }
  | r => { s' with column := s'.column + word.length, l := skipBlanks r }

/-- The branch for a word that does not fit. -/
def printOnNewLine (indent : List Char) (s : ColumnState) : ColumnState :=
  let word := nextWord s.l
  let s' := { s with os := s.os ++ ['\n'], first := false }
  let s' := if word ≠ [] then { { s' with os := s'.os ++ indent }.write word with column := word.length } else s'
  { s' with l := skipBlanks (afterWord s.l) }

end ColumnState

/-- One pass of `while(*l)`. -/
def columnPass (width : Int) (indent : List Char) (s : ColumnState) : Pass ColumnState (List Char) :=
  if s.l = [] then .leave s.os
  else if ((nextWord s.l).length : Int) < width - s.column - (if s.newSentence then 1 else 0) then
    .again (s.printOnLine indent)
  else .again (s.printOnNewLine indent)

/-- `PrintColumn`, for at most `fuel` passes: what is written to `os`. -/
def printColumn (fuel : Nat) (width : Int) (indent text : List Char) : Option (List Char) :=
  loopRun (columnPass width indent) fuel ⟨text, 0, false, true, []⟩

/-- The loop of `PrintColumn` ends. -/
def PrintColumnEnds (width : Int) (indent text : List Char) : Prop :=
  ∃ fuel out, printColumn fuel width indent text = some out

/-! ## The next word -/

theorem nextWord_eq (l : List Char) : nextWord l = l.takeWhile (!isBreak ·) := by
  refine congrArg (l.takeWhile ·) (funext fun c => ?_)
  by_cases hn : c = '\n' <;> by_cases hb : c = ' ' <;> simp [isBreak, hn, hb]

theorem afterWord_eq (l : List Char) : afterWord l = l.dropWhile (!isBreak ·) := by
  refine congrArg (l.dropWhile ·) (funext fun c => ?_)
  by_cases hn : c = '\n' <;> by_cases hb : c = ' ' <;> simp [isBreak, hn, hb]

theorem nextWord_break {c : Char} (hc : isBreak c = true) (l : List Char) : nextWord (c :: l) = [] := by
  rw [nextWord_eq, List.takeWhile_cons_of_neg (by simp [hc])]

theorem afterWord_break {c : Char} (hc : isBreak c = true) (l : List Char) : afterWord (c :: l) = c :: l := by
  rw [afterWord_eq, List.dropWhile_cons_of_neg (by simp [hc])]

/-- A word ends where the text does or at a break. -/
def AtBreak (rest : List Char) : Prop := ∀ c ∈ rest.head?, isBreak c = true

theorem nextWord_append {w rest : List Char} (hw : IsWord w) (hrest : AtBreak rest) : nextWord (w ++ rest) = w := by
  rw [nextWord_eq, List.takeWhile_append_of_pos fun c hc => by simp [hw.noBreak c hc], ← nextWord_eq]
  cases rest with
  | nil => exact List.append_nil w
  | cons c rest => rw [nextWord_break (hrest c rfl), List.append_nil]

theorem afterWord_append {w rest : List Char} (hw : IsWord w) (hrest : AtBreak rest) :
    afterWord (w ++ rest) = rest := by
  rw [afterWord_eq, List.dropWhile_append_of_pos fun c hc => by simp [hw.noBreak c hc], ← afterWord_eq]
  cases rest with
  | nil => rfl
  | cons c rest => exact afterWord_break (hrest c rfl) rest

/-- The ways a text can go on: it ends, a break stands there, or a word does. -/
theorem text_cases (l : List Char) :
    l = [] ∨ (∃ c r, l = c :: r ∧ isBreak c = true) ∨ ∃ w rest, l = w ++ rest ∧ IsWord w ∧ AtBreak rest := by
  cases l with
  | nil => exact .inl rfl
  | cons c r =>
      by_cases hc : isBreak c = true
      · exact .inr (.inl ⟨c, r, rfl, hc⟩)
      · have hsplit : nextWord (c :: r) ++ afterWord (c :: r) = c :: r := List.takeWhile_append_dropWhile
        refine .inr (.inr ⟨_, _, hsplit.symm, ⟨?_, fun d hd => ?_⟩, fun d hd => ?_⟩)
        · rw [nextWord_eq, List.takeWhile_cons_of_pos (by simpa using hc)]
          exact List.cons_ne_nil _ _
        · rw [nextWord_eq] at hd
          simpa using List.mem_takeWhile_imp hd
        · rw [afterWord_eq] at hd
          have hhead := List.head?_dropWhile_not (!isBreak ·) (c :: r)
          rw [Option.mem_def.mp hd] at hhead
          simpa using hhead

/-! ## The caret -/

/-- Where the next word would go: the column and whether a sentence ended before it. -/
structure Caret where
  column : Nat := 0
  newSentence : Bool := false
  deriving DecidableEq

namespace Caret

/-- There is room for `n` characters on the line. -/
def Fits (width : Int) (p : Caret) (n : Nat) : Prop :=
  (n : Int) < width - p.column - (if p.newSentence then 1 else 0)

instance (width : Int) (p : Caret) (n : Nat) : Decidable (p.Fits width n) :=
  inferInstanceAs (Decidable (_ < _))

/-- The blanks before the next word on the line. -/
def gap (p : Caret) : Nat := if p.column = 0 then 0 else if p.newSentence then 2 else 1

/-- The caret behind `w`, which goes on the line if it fits and on a new line otherwise. -/
def place (width : Int) (p : Caret) (w : List Char) : Caret :=
  if p.Fits width w.length then ⟨p.column + p.gap + w.length, endsSentence w⟩ else ⟨w.length, endsSentence w⟩

@[simp] theorem newSentence_place (width : Int) (p : Caret) (w : List Char) :
    (p.place width w).newSentence = endsSentence w := by
  unfold place; split <;> rfl

end Caret

/-- The caret of a state. -/
def ColumnState.caret (s : ColumnState) : Caret := ⟨s.column, s.newSentence⟩

theorem columnPass_of_fits {width : Int} {indent : List Char} {s : ColumnState} (hl : s.l ≠ [])
    (h : s.caret.Fits width (nextWord s.l).length) : columnPass width indent s = .again (s.printOnLine indent) := by
  rw [columnPass, if_neg hl]
  exact if_pos h

theorem columnPass_of_not_fits {width : Int} {indent : List Char} {s : ColumnState} (hl : s.l ≠ [])
    (h : ¬ s.caret.Fits width (nextWord s.l).length) :
    columnPass width indent s = .again (s.printOnNewLine indent) := by
  rw [columnPass, if_neg hl]
  exact if_neg h

/-! ## One pass -/

/-- Blanks at the cursor are skipped, and the caret stays. -/
theorem columnPass_blank (width : Int) (indent : List Char) {s : ColumnState} {r : List Char} (hl : s.l = ' ' :: r) :
    ∃ s', columnPass width indent s = .again s' ∧ s'.l = skipBlanks r ∧ s'.caret = s.caret := by
  have hne : s.l ≠ [] := by rw [hl]; exact List.cons_ne_nil _ _
  have hword : nextWord s.l = [] := by rw [hl]; exact nextWord_break (by decide) r
  have hafter : afterWord s.l = ' ' :: r := by rw [hl]; exact afterWord_break (by decide) r
  by_cases h : s.caret.Fits width (nextWord s.l).length
  · refine ⟨_, columnPass_of_fits hne h, ?_⟩
    simp [ColumnState.printOnLine, ColumnState.caret, hword, hafter, skipBlanks]
  · refine ⟨_, columnPass_of_not_fits hne h, ?_⟩
    simp [ColumnState.printOnNewLine, ColumnState.caret, hword, hafter, skipBlanks]

/-- A newline at the cursor is read if there is room on the line. -/
theorem columnPass_newline {width : Int} (indent : List Char) {s : ColumnState} {r : List Char} (hl : s.l = '\n' :: r)
    (h : s.caret.Fits width 0) :
    ∃ s', columnPass width indent s = .again s' ∧ s'.l = skipBlanks r ∧ s'.caret = ⟨0, s.newSentence⟩ := by
  have hne : s.l ≠ [] := by rw [hl]; exact List.cons_ne_nil _ _
  have hword : nextWord s.l = [] := by rw [hl]; exact nextWord_break (by decide) r
  have hafter : afterWord s.l = '\n' :: r := by rw [hl]; exact afterWord_break (by decide) r
  refine ⟨_, columnPass_of_fits hne (by rw [hword]; exact h), ?_⟩
  simp [ColumnState.printOnLine, ColumnState.caret, hword, hafter]

/-- Otherwise the pass moves neither the cursor nor the caret. -/
theorem columnPass_stuck {width : Int} (indent : List Char) {s : ColumnState} {r : List Char} (hl : s.l = '\n' :: r)
    (h : ¬ s.caret.Fits width 0) :
    ∃ s', columnPass width indent s = .again s' ∧ s'.l = '\n' :: r ∧ s'.caret = s.caret := by
  have hne : s.l ≠ [] := by rw [hl]; exact List.cons_ne_nil _ _
  have hword : nextWord s.l = [] := by rw [hl]; exact nextWord_break (by decide) r
  have hafter : afterWord s.l = '\n' :: r := by rw [hl]; exact afterWord_break (by decide) r
  refine ⟨_, columnPass_of_not_fits hne (by rw [hword]; exact h), ?_⟩
  simp [ColumnState.printOnNewLine, ColumnState.caret, hword, hafter, skipBlanks]

/-- What is printed before the next word if it goes on the line. -/
def ColumnState.between (indent : List Char) (s : ColumnState) : List Char :=
  if s.column ≠ 0 then List.replicate s.caret.gap ' ' else if s.first then [] else indent

theorem ColumnState.separate_eq (indent : List Char) (s : ColumnState) :
    s.separate indent = { s with os := s.os ++ s.between indent, column := s.column + s.caret.gap } := by
  by_cases hc : s.column = 0
  · simp [separate, between, caret, Caret.gap, hc]
  · cases hn : s.newSentence <;>
      simp [separate, between, caret, Caret.gap, hc, hn, List.replicate_succ]

/-- A word with a newline behind it that fits is printed, and the newline is read with it. -/
theorem columnPass_word_newline {width : Int} (indent : List Char) {s : ColumnState} {w r : List Char}
    (hl : s.l = w ++ '\n' :: r) (hw : IsWord w) (h : s.caret.Fits width w.length) :
    ∃ s', columnPass width indent s = .again s' ∧ s'.l = skipBlanks r ∧ s'.caret = ⟨0, endsSentence w⟩ := by
  have hne : s.l ≠ [] := by rw [hl]; simp
  have hbreak : AtBreak ('\n' :: r) := by simp [AtBreak, isBreak]
  have hword : nextWord s.l = w := by rw [hl]; exact nextWord_append hw hbreak
  have hafter : afterWord s.l = '\n' :: r := by rw [hl]; exact afterWord_append hw hbreak
  refine ⟨_, columnPass_of_fits hne (by rw [hword]; exact h), ?_⟩
  simp [ColumnState.printOnLine, ColumnState.caret, ColumnState.write, hword, hafter, hw.ne_nil]

/-- The state after a word that is printed on the line. -/
theorem printOnLine_word (indent : List Char) {s : ColumnState} {w rest : List Char} (hl : s.l = w ++ rest)
    (hw : IsWord w) (hbreak : AtBreak rest) (hrest : ∀ r, rest ≠ '\n' :: r) :
    s.printOnLine indent = ⟨skipBlanks rest, s.column + s.caret.gap + w.length, endsSentence w, s.first,
      s.os ++ s.between indent ++ w⟩ := by
  have hword : nextWord s.l = w := by rw [hl]; exact nextWord_append hw hbreak
  have hafter : afterWord s.l = rest := by rw [hl]; exact afterWord_append hw hbreak
  simp only [ColumnState.printOnLine, hword, hafter, if_pos hw.ne_nil]
  simp [ColumnState.write, ColumnState.separate_eq]

/-- The state after a word that is printed on a new line. -/
theorem printOnNewLine_word (indent : List Char) {s : ColumnState} {w rest : List Char} (hl : s.l = w ++ rest)
    (hw : IsWord w) (hbreak : AtBreak rest) :
    s.printOnNewLine indent
      = ⟨skipBlanks rest, w.length, endsSentence w, false, s.os ++ ['\n'] ++ indent ++ w⟩ := by
  have hword : nextWord s.l = w := by rw [hl]; exact nextWord_append hw hbreak
  have hafter : afterWord s.l = rest := by rw [hl]; exact afterWord_append hw hbreak
  simp [ColumnState.printOnNewLine, ColumnState.write, hword, hafter, hw.ne_nil]

/-- Any other word moves the caret behind it. -/
theorem columnPass_word {width : Int} (indent : List Char) {s : ColumnState} {w rest : List Char}
    (hl : s.l = w ++ rest) (hw : IsWord w) (hbreak : AtBreak rest)
    (h : s.caret.Fits width w.length → ∀ r, rest ≠ '\n' :: r) :
    ∃ s', columnPass width indent s = .again s' ∧ s'.l = skipBlanks rest ∧ s'.caret = s.caret.place width w := by
  have hne : s.l ≠ [] := by rw [hl]; simp [hw.ne_nil]
  have hword : nextWord s.l = w := by rw [hl]; exact nextWord_append hw hbreak
  by_cases hfits : s.caret.Fits width w.length
  · refine ⟨_, columnPass_of_fits hne (by rw [hword]; exact hfits), ?_⟩
    rw [printOnLine_word indent hl hw hbreak (h hfits), Caret.place, if_pos hfits]
    exact ⟨rfl, rfl⟩
  · refine ⟨_, columnPass_of_not_fits hne (by rw [hword]; exact hfits), ?_⟩
    rw [printOnNewLine_word indent hl hw hbreak, Caret.place, if_neg hfits]
    exact ⟨rfl, rfl⟩

end GccXml
