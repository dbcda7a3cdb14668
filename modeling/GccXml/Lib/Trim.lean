import Mathlib.Data.List.DropRight

namespace GccXml

/-! # `Lib.Trim` — a text without the blanks around it

`trim p` drops the elements that satisfy `p` from both ends. What is left is the only stretch of the text with blanks
before and behind it that neither begins nor ends with a blank. -/

/-- A list without the elements at either end that satisfy `p`. -/
def trim {α : Type} (p : α → Bool) (l : List α) : List α := (l.dropWhile p).rdropWhile p

namespace Trim

variable {α : Type} {p q : α → Bool} {l : List α}

/-- Neither end satisfies `p`. -/
structure Trimmed (p : α → Bool) (l : List α) : Prop where
  head : ∀ c, l.head? = some c → p c = false
  last : ∀ c, l.getLast? = some c → p c = false

theorem rdropWhile_append_of_pos {w : List α} (hw : ∀ c ∈ w, p c = true) (l : List α) :
    (l ++ w).rdropWhile p = l.rdropWhile p := by
  rw [List.rdropWhile, List.rdropWhile, List.reverse_append, List.dropWhile_append_of_pos]
  intro c hc
  exact hw c (List.mem_reverse.mp hc)

/-- **Blanks around a text do not count.** -/
theorem trim_append {w w' : List α} (hw : ∀ c ∈ w, p c = true) (hw' : ∀ c ∈ w', p c = true) (l : List α) :
    trim p (w ++ l ++ w') = trim p l := by
  unfold trim
  rw [List.append_assoc, List.dropWhile_append_of_pos hw, List.dropWhile_append]
  by_cases hempty : (l.dropWhile p).isEmpty = true
  · have hnil : l.dropWhile p = [] := List.isEmpty_iff.mp hempty
    rw [if_pos hempty, hnil, List.dropWhile_eq_nil_iff.mpr hw']
  · rw [if_neg hempty, rdropWhile_append_of_pos hw']

/-- A text without blanks at its ends stays as it is. -/
theorem trim_eq_self (h : Trimmed p l) : trim p l = l := by
  have hdrop : l.dropWhile p = l := by
    cases l with
    | nil => rfl
    | cons c l => exact List.dropWhile_cons_of_neg (by simp [h.head c rfl])
  rw [trim, hdrop, List.rdropWhile_eq_self_iff]
  intro hne
  have hlast := h.last (l.getLast hne) (List.getLast?_eq_some_getLast hne)
  simp [hlast]

/-- What is cut off are blanks. -/
theorem exists_append (p : α → Bool) (l : List α) :
    ∃ w w', l = w ++ trim p l ++ w' ∧ (∀ c ∈ w, p c = true) ∧ ∀ c ∈ w', p c = true := by
  refine ⟨l.takeWhile p, (l.dropWhile p).rtakeWhile p, ?_, ?_, ?_⟩
  · rw [trim, List.append_assoc, List.rdropWhile_append_rtakeWhile, List.takeWhile_append_dropWhile]
  · exact fun c hc => List.mem_takeWhile_imp hc
  · exact fun c hc => List.mem_rtakeWhile_imp hc

theorem trimmed_trim (p : α → Bool) (l : List α) : Trimmed p (trim p l) := by
  constructor
  · intro c hc
    obtain ⟨cut, hcut⟩ : trim p l <+: l.dropWhile p := List.rdropWhile_prefix p (l.dropWhile p)
    have hdrop : (l.dropWhile p).head? = some c := by
      rw [← hcut, List.head?_append, hc]
      rfl
    have hne : l.dropWhile p ≠ [] := by
      rintro hnil
      rw [hnil] at hdrop
      cases hdrop
    have hnot := List.head_dropWhile_not p hne
    rw [List.head?_eq_some_head hne] at hdrop
    rw [← Option.some.inj hdrop]
    simpa using hnot
  · intro c hc
    have hne : (l.dropWhile p).rdropWhile p ≠ [] := by
      rintro hnil
      rw [trim, hnil] at hc
      cases hc
    have hnot := List.rdropWhile_last_not p _ hne
    rw [trim, List.getLast?_eq_some_getLast hne] at hc
    rw [← Option.some.inj hc]
    simpa using hnot

/-- An element that is no blank stays. -/
theorem mem_trim {c : α} (hmem : c ∈ l) (hc : p c = false) : c ∈ trim p l := by
  obtain ⟨w, w', hl, hw, hw'⟩ := exists_append p l
  rw [hl] at hmem
  simp only [List.mem_append] at hmem
  rcases hmem with (hmem | hmem) | hmem
  · rw [hw c hmem] at hc
    cases hc
  · exact hmem
  · rw [hw' c hmem] at hc
    cases hc

theorem mem_of_mem_trim {c : α} (h : c ∈ trim p l) : c ∈ l := by
  obtain ⟨w, w', hl, -, -⟩ := exists_append p l
  rw [hl]
  simp [h]

theorem length_trim_le (p : α → Bool) (l : List α) : (trim p l).length ≤ l.length := by
  obtain ⟨w, w', hl, -, -⟩ := exists_append p l
  have hlen := congrArg List.length hl
  simp only [List.length_append] at hlen
  omega

/-- A text that begins with no blank keeps its beginning. -/
theorem head?_trim {c : α} (hl : l.head? = some c) (hc : p c = false) : (trim p l).head? = some c := by
  obtain ⟨w, w', hsplit, hw, -⟩ := exists_append p l
  cases w with
  | cons d w =>
      have hd : d = c := by
        rw [hsplit] at hl
        exact Option.some.inj hl
      have hblank := hw d List.mem_cons_self
      rw [hd, hc] at hblank
      cases hblank
  | nil =>
      have hne : trim p l ≠ [] := List.ne_nil_of_mem (mem_trim (List.mem_of_mem_head? hl) hc)
      rw [hsplit, List.nil_append, List.head?_append_of_ne_nil _ hne] at hl
      exact hl

/-- More blanks cut off more. -/
theorem trim_of_trim (hpq : ∀ c, p c = true → q c = true) : trim q (trim p l) = trim q l := by
  obtain ⟨w, w', hl, hw, hw'⟩ := exists_append p l
  conv_rhs => rw [hl]
  exact (trim_append (fun c hc => hpq c (hw c hc)) (fun c hc => hpq c (hw' c hc)) _).symm

/-- Cutting off more blanks changes nothing, if and only if none of them are left. -/
theorem trim_eq_trim_iff (hpq : ∀ c, p c = true → q c = true) : trim q l = trim p l ↔ Trimmed q (trim p l) := by
  constructor
  · intro h
    rw [← h]
    exact trimmed_trim q l
  · intro h
    rw [← trim_of_trim hpq, trim_eq_self h]

end Trim

end GccXml
