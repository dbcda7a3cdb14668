import Mathlib.Data.List.Basic

namespace GccXml

/-! # `Lib.Words` — the words of a text

The words of a text are the longest stretches of it without a blank and without a newline. -/

/-- A character that separates words. -/
def isBreak (c : Char) : Bool := c = ' ' || c = '\n'

/-- The words of a text. -/
def splitWords (text : List Char) : List (List Char) := (text.splitOnP isBreak).filter (· ≠ [])

/-- A text that is one word. -/
structure IsWord (w : List Char) : Prop where
  ne_nil : w ≠ []
  noBreak : ∀ c ∈ w, isBreak c = false

@[simp] theorem splitWords_nil : splitWords [] = [] := rfl

/-- Words split at a break. -/
theorem splitWords_append_break {c : Char} (hc : isBreak c = true) (xs ys : List Char) :
    splitWords (xs ++ c :: ys) = splitWords xs ++ splitWords ys := by
  rw [splitWords, List.splitOnP_append_cons xs ys hc, List.filter_append]
  rfl

theorem splitWords_cons_break {c : Char} (hc : isBreak c = true) (text : List Char) :
    splitWords (c :: text) = splitWords text := splitWords_append_break hc [] text

/-- Breaks at the front do not count. -/
theorem splitWords_breaks_append {bs : List Char} (h : ∀ c ∈ bs, isBreak c = true) (text : List Char) :
    splitWords (bs ++ text) = splitWords text := by
  induction bs with
  | nil => rfl
  | cons c bs ih =>
      rw [List.cons_append, splitWords_cons_break (h c (List.mem_cons_self ..))]
      exact ih fun d hd => h d (List.mem_cons_of_mem _ hd)

theorem splitWords_word {w : List Char} (h : IsWord w) : splitWords w = [w] := by
  rw [splitWords, List.splitOnP_eq_singleton h.noBreak]
  simp [h.ne_nil]

/-- A word that a break follows is the first word. -/
theorem splitWords_word_append {w : List Char} (h : IsWord w) {c : Char} (hc : isBreak c = true)
    (text : List Char) : splitWords (w ++ c :: text) = w :: splitWords text := by
  rw [splitWords_append_break hc, splitWords_word h]
  rfl

/-- A text without words is made of breaks. -/
theorem isBreak_of_splitWords_eq_nil {text : List Char} (h : splitWords text = []) : ∀ c ∈ text, isBreak c = true := by
  induction text with
  | nil => simp
  | cons c text ih =>
      by_cases hc : isBreak c = true
      · rw [splitWords_cons_break hc] at h
        simpa [hc] using ih h
      · obtain ⟨piece, more, hsplit⟩ := List.exists_cons_of_ne_nil (List.splitOnP_ne_nil isBreak text)
        rw [splitWords, List.splitOnP_cons_eq_if_modifyHead, if_neg hc, hsplit, List.modifyHead_cons,
          List.filter_cons_of_pos (by simp)] at h
        cases h

end GccXml
