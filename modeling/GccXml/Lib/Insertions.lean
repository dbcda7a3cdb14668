import Mathlib.Data.List.Basic

namespace GccXml

/-! # `Lib.Insertions` — a list with some more elements

Two runs may come to the same results but for some that only one of them has, and of which something is known. As lists
of results the one is the other with elements put in, a sublist relation that says what the elements left out are. What
is known of them bounds how the two lists can differ: an element of which it is not true is in both lists equally
often. -/

namespace Insertions

variable {α : Type}

/-- **The first list is the second one, and some more** elements of which `P` is true. -/
inductive Inserts (P : α → Prop) : List α → List α → Prop
  | nil : Inserts P [] []
  | same {l l' : List α} (a : α) : Inserts P l l' → Inserts P (a :: l) (a :: l')
  | extra {l l' : List α} {a : α} : P a → Inserts P l l' → Inserts P (a :: l) l'

namespace Inserts

variable {P Q : α → Prop} {l l' m m' : List α}

theorem refl (l : List α) : Inserts P l l := by
  induction l with
  | nil => exact .nil
  | cons a l ih => exact .same a ih

theorem append (h : Inserts P l l') (h' : Inserts P m m') : Inserts P (l ++ m) (l' ++ m') := by
  induction h with
  | nil => exact h'
  | same a _ ih => exact .same a ih
  | extra ha _ ih => exact .extra ha ih

/-- Less may be said of the elements. -/
theorem imp (h : Inserts P l l') (himp : ∀ a, P a → Q a) : Inserts Q l l' := by
  induction h with
  | nil => exact .nil
  | same a _ ih => exact .same a ih
  | extra ha _ ih => exact .extra (himp _ ha) ih

theorem sublist (h : Inserts P l l') : l'.Sublist l := by
  induction h with
  | nil => exact .slnil
  | same a _ ih => exact ih.cons_cons a
  | extra _ _ ih => exact ih.cons _

variable [DecidableEq α]

/-- **An element that was not put in** is in both lists equally often. -/
theorem count_eq (h : Inserts P l l') {a : α} (ha : ¬ P a) : l.count a = l'.count a := by
  induction h with
  | nil => rfl
  | same b _ ih => rw [List.count_cons, List.count_cons, ih]
  | @extra l l' b hb _ ih =>
      have hne : b ≠ a := fun hba => ha (hba ▸ hb)
      rw [List.count_cons_of_ne hne, ih]

/-- It is in the first list at least as often as in the second one. -/
theorem count_le (h : Inserts P l l') (a : α) : l'.count a ≤ l.count a := h.sublist.count_le a

end Inserts

end Insertions

end GccXml
