import Mathlib.Data.List.Nodup

namespace GccXml

/-! # `Lib.Chain` — null-terminated chains

A heap of nodes in which every node points to at most one other. `Walks next p l` says that the walk from the pointer
`p` visits the nodes `l` in this order and then stands on the null pointer: it is the list that a chain represents. A
chain that is walked to its end has no node twice, and writing one node's pointer leaves every chain alone that does
not visit this node. -/

namespace Chain

variable {ι : Type} {next next' : ι → Option ι}

/-- The walk from `p` visits `l` and ends in the null pointer. -/
def Walks (next : ι → Option ι) : Option ι → List ι → Prop
  | p, [] => p = none
  | p, i :: l => p = some i ∧ Walks next (next i) l

@[simp] theorem walks_nil {p : Option ι} : Walks next p [] ↔ p = none := Iff.rfl

@[simp] theorem walks_cons {p : Option ι} {i : ι} {l : List ι} :
    Walks next p (i :: l) ↔ p = some i ∧ Walks next (next i) l := Iff.rfl

/-- A pointer represents at most one list. -/
theorem Walks.unique {p : Option ι} {l l' : List ι} (h : Walks next p l) (h' : Walks next p l') : l = l' := by
  induction l generalizing p l' with
  | nil =>
      cases l' with
      | nil => rfl
      | cons i l' => exact absurd (h.symm.trans h'.1) nofun
  | cons i l ih =>
      cases l' with
      | nil => exact absurd (h'.symm.trans h.1) nofun
      | cons j l' =>
          obtain rfl : i = j := Option.some.inj (h.1.symm.trans h'.1)
          rw [ih h.2 h'.2]

/-- What follows a node of a chain is a chain. -/
theorem Walks.after {p : Option ι} {l₁ l₂ : List ι} {i : ι} (h : Walks next p (l₁ ++ i :: l₂)) :
    Walks next (next i) l₂ := by
  induction l₁ generalizing p with
  | nil => exact h.2
  | cons j l₁ ih => exact ih h.2

/-- The last node of a chain points nowhere. -/
theorem Walks.next_last {p : Option ι} {l : List ι} {i : ι} (h : Walks next p (l ++ [i])) : next i = none :=
  h.after

/-- **A chain that ends has no cycle.** -/
theorem Walks.nodup {p : Option ι} {l : List ι} (h : Walks next p l) : l.Nodup := by
  induction l generalizing p with
  | nil => exact List.nodup_nil
  | cons i l ih =>
      refine List.nodup_cons.mpr ⟨fun hi => ?_, ih h.2⟩
      -- a second visit would start the same walk again, and that one is shorter
      obtain ⟨l₁, l₂, rfl⟩ := List.append_of_mem hi
      have hlen := congrArg List.length (h.2.unique h.2.after)
      simp only [List.length_append, List.length_cons] at hlen
      omega

/-- **Frame rule.** A chain depends on the pointers of its own nodes only. -/
theorem Walks.congr {p : Option ι} {l : List ι} (h : Walks next p l) (hnext : ∀ i ∈ l, next' i = next i) :
    Walks next' p l := by
  induction l generalizing p with
  | nil => exact h
  | cons i l ih =>
      refine ⟨h.1, ?_⟩
      rw [hnext i List.mem_cons_self]
      exact ih h.2 fun j hj => hnext j (List.mem_cons_of_mem i hj)

/-- **Splicing.** When the last node of a chain is made to point to another chain, the first one goes on with it. -/
theorem Walks.splice {p q : Option ι} {l l' : List ι} {last : ι} (h : Walks next p (l ++ [last]))
    (hl : ∀ i ∈ l, next' i = next i) (hlast : next' last = q) (h' : Walks next' q l') :
    Walks next' p (l ++ last :: l') := by
  induction l generalizing p with
  | nil => exact ⟨h.1, hlast ▸ h'⟩
  | cons i l ih =>
      refine ⟨h.1, ?_⟩
      rw [hl i List.mem_cons_self]
      exact ih h.2 fun j hj => hl j (List.mem_cons_of_mem i hj)

/-- **Redirecting.** When a node of a chain is made to point to another chain, the first one goes on with it. -/
theorem Walks.redirect {p q : Option ι} {l rest l' : List ι} {k : ι} (h : Walks next p (l ++ k :: rest))
    (hl : ∀ i ∈ l, next' i = next i) (hk : next' k = q) (h' : Walks next' q l') : Walks next' p (l ++ k :: l') := by
  induction l generalizing p with
  | nil => exact ⟨h.1, hk ▸ h'⟩
  | cons i l ih =>
      refine ⟨h.1, ?_⟩
      rw [hl i List.mem_cons_self]
      exact ih h.2 fun j hj => hl j (List.mem_cons_of_mem i hj)

end Chain

end GccXml
