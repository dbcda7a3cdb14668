import Mathlib.Data.List.Basic

namespace GccXml

/-! # `Lib.Pieces` — lists made of pieces

A list made of one piece for each element of another list. When no piece of a second such list is longer, the two
lists are the same only piece by piece. A list of pieces with a separator between them can be split again, if the
separator is in none of them. -/

theorem length_flatMap_le {α β : Type} {f g : α → List β} {l : List α}
    (h : ∀ x ∈ l, (g x).length ≤ (f x).length) : (l.flatMap g).length ≤ (l.flatMap f).length := by
  induction l with
  | nil => exact Nat.le_refl 0
  | cons x l ih =>
      rw [List.flatMap_cons, List.flatMap_cons, List.length_append, List.length_append]
      exact Nat.add_le_add (h x List.mem_cons_self) (ih fun y hy => h y (List.mem_cons_of_mem _ hy))

/-- Two lists made of pieces, none of them longer in the second, are the same only piece by piece. -/
theorem flatMap_eq_iff {α β : Type} {f g : α → List β} {l : List α} (h : ∀ x ∈ l, (g x).length ≤ (f x).length) :
    l.flatMap f = l.flatMap g ↔ ∀ x ∈ l, f x = g x := by
  constructor
  · intro heq
    induction l with
    | nil => simp
    | cons x l ih =>
        rw [List.forall_mem_cons] at h
        rw [List.flatMap_cons, List.flatMap_cons] at heq
        have hlen := congrArg List.length heq
        rw [List.length_append, List.length_append] at hlen
        have hx := h.1
        have hl := length_flatMap_le h.2
        obtain ⟨hfirst, hrest⟩ := List.append_inj heq (by omega)
        exact List.forall_mem_cons.mpr ⟨hfirst, ih h.2 hrest⟩
  · intro hall
    exact List.flatMap_congr hall

/-- A function that is injective on the elements of two lists is injective on the lists. -/
theorem map_inj_of_mem {α β : Type} {f : α → β} {l l' : List α} (h : ∀ x ∈ l, ∀ y ∈ l', f x = f y → x = y)
    (heq : l.map f = l'.map f) : l = l' := by
  induction l generalizing l' with
  | nil => exact (List.map_eq_nil_iff.mp heq.symm).symm
  | cons x l ih =>
      cases l' with
      | nil => cases heq
      | cons y l' =>
          rw [List.map_cons, List.map_cons, List.cons.injEq] at heq
          rw [h x List.mem_cons_self y List.mem_cons_self heq.1,
            ih (fun x hx y hy => h x (List.mem_cons_of_mem _ hx) y (List.mem_cons_of_mem _ hy)) heq.2]

/-! ## Joined lists -/

section

variable {α : Type} {sep l : List α} {ls : List (List α)}

theorem intercalate_cons_eq (sep l : List α) (ls : List (List α)) :
    sep.intercalate (l :: ls) = l ++ ls.flatMap (sep ++ ·) := by
  induction ls generalizing l with
  | nil => simp
  | cons next ls ih => rw [List.intercalate_cons_cons, ih, List.flatMap_cons, List.append_assoc, List.append_assoc]

theorem mem_intercalate_of_mem (hl : l ∈ ls) {c : α} (hc : c ∈ l) : c ∈ sep.intercalate ls := by
  cases ls with
  | nil => cases hl
  | cons head ls =>
      rw [intercalate_cons_eq]
      obtain rfl | hl := List.mem_cons.mp hl
      · exact List.mem_append_left _ hc
      · exact List.mem_append_right _ (List.mem_flatMap.mpr ⟨l, hl, List.mem_append_right _ hc⟩)

theorem forall_mem_intercalate {P : α → Prop} (hsep : ∀ c ∈ sep, P c) (hls : ∀ l ∈ ls, ∀ c ∈ l, P c) :
    ∀ c ∈ sep.intercalate ls, P c := by
  cases ls with
  | nil => simp
  | cons head ls =>
      rw [List.forall_mem_cons] at hls
      rw [intercalate_cons_eq]
      intro c hc
      obtain hc | hc := List.mem_append.mp hc
      · exact hls.1 c hc
      · obtain ⟨l, hl, hc⟩ := List.mem_flatMap.mp hc
        obtain hc | hc := List.mem_append.mp hc
        · exact hsep c hc
        · exact hls.2 l hl c hc

/-- A joined list whose pieces do not have the separator in them can be split only there. -/
theorem intercalate_inj [DecidableEq α] {sep : α} {ls ls' : List (List α)} (hls : ∀ l ∈ ls, sep ∉ l)
    (hls' : ∀ l ∈ ls', sep ∉ l) (hne : ls ≠ []) (hne' : ls' ≠ [])
    (h : [sep].intercalate ls = [sep].intercalate ls') : ls = ls' := by
  rw [← List.splitOn_intercalate sep hls hne, h, List.splitOn_intercalate sep hls' hne']

end

end GccXml
