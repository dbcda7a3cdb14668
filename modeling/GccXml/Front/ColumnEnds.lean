import GccXml.Front.PrintColumn

namespace GccXml

/-! # `Front.ColumnEnds` — when the loop of `PrintColumn` ends

A newline is read in the pass of the word right before it, if that word fits on its line, or in a pass of its own, if
the line then has room. Otherwise the pass prints a newline, but leaves the cursor and the column as they are, and so
does every later pass. Which line a word goes to does not depend on the indentation, so whether the loop ends is
decided by the width and the words on each line of the text.

`afterWords` follows the column over the words of a line without printing anything, and `ReadsNewline` says whether the
newline behind them is read; `ReadsNewlines` asks that of every line of the text. The condition is shown to be the same
before and after a pass, for the passes of a word, of a word with its newline and of a newline alone, as long as it
holds; when it fails, the passes come to a state that is `Stuck`, and from there to no other. -/

/-! ## Lines of a text -/

theorem splitOn_append {xs : List Char} (h : '\n' ∉ xs) (ys : List Char) :
    (xs ++ ys).splitOn '\n' = (ys.splitOn '\n').modifyHead (xs ++ ·) := by
  induction xs with
  | nil =>
      obtain ⟨line, more, hys⟩ := List.exists_cons_of_ne_nil (List.splitOn_ne_nil '\n' ys)
      rw [List.nil_append, hys, List.modifyHead_cons, List.nil_append]
  | cons x xs ih =>
      obtain ⟨hx, hxs⟩ : '\n' ≠ x ∧ '\n' ∉ xs := by simpa using h
      obtain ⟨line, more, hys⟩ := List.exists_cons_of_ne_nil (List.splitOn_ne_nil '\n' ys)
      rw [List.cons_append, List.splitOn_cons_eq_if_modifyHead, if_neg (by simpa using hx.symm), ih hxs, hys]
      rfl

theorem splitOn_newline (ys : List Char) : ('\n' :: ys).splitOn '\n' = [] :: ys.splitOn '\n' := by
  rw [List.splitOn_cons_eq_if_modifyHead, if_pos (by decide)]

/-- A line that no break ends, so that a newline stands right behind its last word. -/
def EndsInWord (line : List Char) : Prop := ∀ c ∈ line.getLast?, isBreak c = false

instance (line : List Char) : Decidable (EndsInWord line) :=
  inferInstanceAs (Decidable (∀ c ∈ line.getLast?, isBreak c = false))

namespace Caret

variable (width : Int)

/-- The newline behind a line with the words `ws` is read, if the line starts at the caret. -/
def ReadsNewline (tight : Prop) : Caret → List (List Char) → Prop
  | p, [] => p.Fits width 0
  | p, [w] => tight ∧ p.Fits width w.length ∨ (p.place width w).Fits width 0
  | p, w :: ws => ReadsNewline tight (p.place width w) ws

/-- The caret behind the words of a line. -/
def afterWords (p : Caret) (ws : List (List Char)) : Caret := ws.foldl (place width) p

/-- Every newline between two of the lines is read. -/
def ReadsNewlines : Caret → List (List Char) → Prop
  | p, line :: next :: lines =>
      ReadsNewline width (EndsInWord line) p (splitWords line) ∧
        ReadsNewlines ⟨0, (afterWords width p (splitWords line)).newSentence⟩ (next :: lines)
  | _, _ => True

variable {width}

/-- A blank at the front of a line changes nothing. -/
theorem readsNewlines_blank (p : Caret) (line : List Char) (lines : List (List Char)) :
    ReadsNewlines width p ((' ' :: line) :: lines) ↔ ReadsNewlines width p (line :: lines) := by
  cases lines with
  | nil => exact Iff.rfl
  | cons next lines =>
      simp only [ReadsNewlines, splitWords_cons_break (c := ' ') (by decide)]
      cases line with
      | nil => exact Iff.rfl
      | cons c line => rfl

/-- A line that ends in a blank and has no more words leaves its newline to a pass of its own. -/
theorem readsNewline_cons {tight : Prop} {ws : List (List Char)} (h : ws = [] → ¬ tight) (p : Caret)
    (w : List Char) : ReadsNewline width tight p (w :: ws) ↔ ReadsNewline width tight (p.place width w) ws := by
  cases ws with
  | nil => simp [ReadsNewline, h rfl]
  | cons v ws => exact Iff.rfl

/-- A word at the front of a line, with a blank behind it, moves the caret. -/
theorem readsNewlines_word {w : List Char} (hw : IsWord w) (p : Caret) (line : List Char) (lines : List (List Char)) :
    ReadsNewlines width p ((w ++ ' ' :: line) :: lines)
      ↔ ReadsNewlines width (p.place width w) ((' ' :: line) :: lines) := by
  cases lines with
  | nil => exact Iff.rfl
  | cons next lines =>
      have hlast : (w ++ ' ' :: line).getLast? = (' ' :: line).getLast? :=
        List.getLast?_append_of_ne_nil _ (List.cons_ne_nil _ _)
      have hblank : splitWords line = [] → ¬ EndsInWord (' ' :: line) := by
        intro hnone hends
        have hbreaks : ∀ c ∈ ' ' :: line, isBreak c = true := by
          simpa [isBreak] using isBreak_of_splitWords_eq_nil hnone
        obtain ⟨c, hc⟩ := Option.isSome_iff_exists.mp (List.getLast?_isSome.mpr (List.cons_ne_nil ' ' line))
        have hbreak := hbreaks c (List.mem_of_getLast? hc)
        rw [hends c hc] at hbreak
        cases hbreak
      have hends : EndsInWord (w ++ ' ' :: line) ↔ EndsInWord (' ' :: line) := by rw [EndsInWord, EndsInWord, hlast]
      rw [ReadsNewlines, ReadsNewlines, splitWords_word_append hw (by decide), splitWords_cons_break (by decide),
        propext hends, readsNewline_cons hblank]
      rfl

end Caret

/-! ## The loop -/

theorem skipBlanks_length (l : List Char) : (skipBlanks l).length ≤ l.length := List.length_dropWhile_le _ _

/-- Blanks at the front of a text change nothing. -/
theorem readsNewlines_skipBlanks {width : Int} (p : Caret) (l : List Char) :
    p.ReadsNewlines width ((skipBlanks l).splitOn '\n') ↔ p.ReadsNewlines width (l.splitOn '\n') := by
  induction l with
  | nil => exact Iff.rfl
  | cons c l ih =>
      by_cases hc : c = ' '
      · subst hc
        obtain ⟨line, more, hl⟩ := List.exists_cons_of_ne_nil (List.splitOn_ne_nil '\n' l)
        have hsplit : (' ' :: l).splitOn '\n' = (' ' :: line) :: more := by
          rw [List.splitOn_cons_eq_if_modifyHead, if_neg (by decide), hl, List.modifyHead_cons]
        rw [skipBlanks, List.dropWhile_cons_of_pos (by decide), ← skipBlanks, ih, hsplit, hl,
          Caret.readsNewlines_blank]
      · rw [skipBlanks, List.dropWhile_cons_of_neg (by simpa using hc)]

/-- A newline that is read leaves a caret at the start of a line. -/
theorem readsNewlines_newline {width : Int} (p : Caret) (r : List Char) :
    p.ReadsNewlines width (('\n' :: r).splitOn '\n')
      ↔ p.Fits width 0 ∧ Caret.ReadsNewlines width ⟨0, p.newSentence⟩ (r.splitOn '\n') := by
  obtain ⟨line, more, hr⟩ := List.exists_cons_of_ne_nil (List.splitOn_ne_nil '\n' r)
  rw [splitOn_newline, hr]
  exact Iff.rfl

theorem notMem_of_isWord {w : List Char} (hw : IsWord w) : '\n' ∉ w := by
  intro hmem
  exact absurd (hw.noBreak _ hmem) (by decide)

theorem endsInWord_word {w : List Char} (hw : IsWord w) : EndsInWord w :=
  fun c hc => hw.noBreak c (List.mem_of_getLast? hc)

/-- A newline right behind a word is read with the word if that fits. -/
theorem readsNewlines_word_newline {width : Int} {w : List Char} (hw : IsWord w) (p : Caret) (r : List Char) :
    p.ReadsNewlines width ((w ++ '\n' :: r).splitOn '\n')
      ↔ (p.Fits width w.length ∨ (p.place width w).Fits width 0)
        ∧ Caret.ReadsNewlines width ⟨0, endsSentence w⟩ (r.splitOn '\n') := by
  obtain ⟨line, more, hr⟩ := List.exists_cons_of_ne_nil (List.splitOn_ne_nil '\n' r)
  rw [List.splitOn_append_cons_self_of_not_mem (notMem_of_isWord hw), hr, Caret.ReadsNewlines, splitWords_word hw]
  simp [Caret.ReadsNewline, Caret.afterWords, endsInWord_word hw]

theorem readsNewlines_word_blank {width : Int} {w : List Char} (hw : IsWord w) (p : Caret) (r : List Char) :
    p.ReadsNewlines width ((w ++ ' ' :: r).splitOn '\n')
      ↔ (p.place width w).ReadsNewlines width ((' ' :: r).splitOn '\n') := by
  obtain ⟨line, more, hr⟩ := List.exists_cons_of_ne_nil (List.splitOn_ne_nil '\n' r)
  have hblank : (' ' :: r).splitOn '\n' = (' ' :: line) :: more := by
    rw [List.splitOn_cons_eq_if_modifyHead, if_neg (by decide), hr, List.modifyHead_cons]
  rw [splitOn_append (notMem_of_isWord hw), hblank, List.modifyHead_cons, Caret.readsNewlines_word hw]

theorem ends_again {σ β : Type} {pass : σ → Pass σ β} {s s' : σ} (h : pass s = .again s') :
    Loop.Ends pass s ↔ Loop.Ends pass s' :=
  ⟨fun ⟨b, hb⟩ => ⟨b, hb.again h⟩, fun ⟨b, hb⟩ => ⟨b, .of_again h hb⟩⟩

/-- The cursor is on a newline, and there is no room left on the line. -/
def Stuck (width : Int) (s : ColumnState) : Prop := (∃ r, s.l = '\n' :: r) ∧ ¬ s.caret.Fits width 0

theorem stuck_pass {width : Int} (indent : List Char) (s : ColumnState) (h : Stuck width s) :
    ∃ s', columnPass width indent s = .again s' ∧ Stuck width s' := by
  obtain ⟨⟨r, hl⟩, hfull⟩ := h
  obtain ⟨s', hp, hl', hcaret⟩ := columnPass_stuck indent hl hfull
  exact ⟨s', hp, ⟨r, hl'⟩, by rw [hcaret]; exact hfull⟩

/-- **Where the loop ends**, from any state. -/
theorem ends_iff_readsNewlines (width : Int) (indent : List Char) (s : ColumnState) :
    Loop.Ends (columnPass width indent) s ↔ s.caret.ReadsNewlines width (s.l.splitOn '\n') := by
  -- each pass that is not stuck shortens the text
  induction hn : s.l.length using Nat.strong_induction_on generalizing s with
  | _ n ih =>
      subst hn
      have hgo : ∀ s', columnPass width indent s = .again s' → s'.l.length < s.l.length →
          (Loop.Ends (columnPass width indent) s ↔ s'.caret.ReadsNewlines width (s'.l.splitOn '\n')) :=
        fun s' hp hlt => (ends_again hp).trans (ih _ hlt s' rfl)
      rcases text_cases s.l with hl | ⟨c, r, hl, hc⟩ | ⟨w, rest, hl, hw, hbreak⟩
      · have hleave : columnPass width indent s = .leave s.os := by rw [columnPass, if_pos hl]
        rw [hl]
        exact ⟨fun _ => trivial, fun _ => ⟨_, .of_leave hleave⟩⟩
      · have hlen : (skipBlanks r).length < s.l.length := by
          rw [hl]
          exact Nat.lt_succ_of_le (skipBlanks_length r)
        rcases (by simpa [isBreak] using hc : c = ' ' ∨ c = '\n') with rfl | rfl
        · obtain ⟨s', hp, hl', hcaret⟩ := columnPass_blank width indent hl
          have hskip : skipBlanks s.l = skipBlanks r := by
            rw [hl, skipBlanks, List.dropWhile_cons_of_pos (by decide)]
            rfl
          rw [hgo s' hp (by rw [hl']; exact hlen), hl', hcaret, ← hskip, readsNewlines_skipBlanks]
        · rw [hl, readsNewlines_newline]
          by_cases hfits : s.caret.Fits width 0
          · obtain ⟨s', hp, hl', hcaret⟩ := columnPass_newline indent hl hfits
            rw [hgo s' hp (by rw [hl']; exact hlen), hl', hcaret, readsNewlines_skipBlanks]
            exact (and_iff_right hfits).symm
          · have hnot := Loop.not_ends_of_stuck (stuck_pass indent) .refl ⟨⟨r, hl⟩, hfits⟩
            exact iff_of_false hnot fun h => hfits h.1
      · have hlen : rest.length < s.l.length := by
          rw [hl, List.length_append]
          have := List.length_pos_of_ne_nil hw.ne_nil
          omega
        have hskip := (skipBlanks_length rest).trans_lt hlen
        cases rest with
        | nil =>
            obtain ⟨s', hp, hl', -⟩ := columnPass_word indent hl hw hbreak fun _ r => (List.cons_ne_nil _ _).symm
            rw [hgo s' hp (by rw [hl']; exact hskip), hl', hl, List.append_nil,
              List.splitOn_eq_singleton (notMem_of_isWord hw)]
            exact Iff.rfl
        | cons c r =>
            rcases (by simpa [isBreak] using hbreak c rfl : c = ' ' ∨ c = '\n') with rfl | rfl
            · obtain ⟨s', hp, hl', hcaret⟩ := columnPass_word indent hl hw hbreak fun _ r' => by simp
              rw [hgo s' hp (by rw [hl']; exact hskip), hl', hcaret, readsNewlines_skipBlanks, hl,
                readsNewlines_word_blank hw]
            · rw [hl, readsNewlines_word_newline hw]
              by_cases hfits : s.caret.Fits width w.length
              · obtain ⟨s', hp, hl', hcaret⟩ := columnPass_word_newline indent hl hw hfits
                have hr := (skipBlanks_length r).trans_lt ((Nat.lt_succ_self _).trans hlen)
                rw [hgo s' hp (by rw [hl']; exact hr), hl', hcaret, readsNewlines_skipBlanks]
                exact (and_iff_right (.inl hfits)).symm
              · obtain ⟨s', hp, hl', hcaret⟩ := columnPass_word indent hl hw hbreak fun h => absurd h hfits
                rw [hgo s' hp (by rw [hl']; exact hskip), hl', hcaret, readsNewlines_skipBlanks, readsNewlines_newline,
                  Caret.newSentence_place, or_iff_right hfits]

/-- **`PrintColumn` ends exactly when every newline of its text is read**: it stands right behind a word that fits on
its line, or the line that its words fill still has room. -/
theorem printColumnEnds_iff (width : Int) (indent text : List Char) :
    PrintColumnEnds width indent text ↔ Caret.ReadsNewlines width ⟨0, false⟩ (text.splitOn '\n') := by
  rw [← show ColumnState.caret ⟨text, 0, false, true, []⟩ = ⟨0, false⟩ from rfl]
  rw [← ends_iff_readsNewlines width indent ⟨text, 0, false, true, []⟩]
  exact exists_comm

/-- A word that overflows its line keeps the loop on the newline behind it. -/
theorem not_printColumnEnds_overflow :
    ¬ ∀ (width : Int) (indent text : List Char), 0 < width → PrintColumnEnds width indent text := by
  intro h
  obtain ⟨fuel, out, hrun⟩ := h 3 [] ['a', 'a', 'a', 'a', '\n'] (by decide)
  have hword : columnPass 3 [] ⟨['a', 'a', 'a', 'a', '\n'], 0, false, true, []⟩
      = .again ⟨['\n'], 4, false, false, ['\n', 'a', 'a', 'a', 'a']⟩ := by decide
  have hstuck : Stuck 3 ⟨['\n'], 4, false, false, ['\n', 'a', 'a', 'a', 'a']⟩ := ⟨⟨[], rfl⟩, by decide⟩
  exact Loop.not_ends_of_stuck (stuck_pass []) (.single hword) hstuck ⟨out, fuel, hrun⟩

end GccXml
