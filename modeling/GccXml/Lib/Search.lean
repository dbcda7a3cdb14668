import Mathlib.Logic.Relation
import Mathlib.Order.WellFounded

namespace GccXml

/-! # `Lib.Search` — searching a tree for a hit

A search asks a node whether it is a hit and goes on to the nodes below it. When the nodes below a node are smaller, the
search finds a hit if and only if one can be reached. -/

namespace Search

variable {α : Type} {next : α → List α} {hit : α → Bool}

/-- `b` is `a` or below it. -/
def Reaches (next : α → List α) : α → α → Prop := Relation.ReflTransGen fun a b => b ∈ next a

theorem Reaches.refl (a : α) : Reaches next a a := Relation.ReflTransGen.refl

/-- What is below a child is below the node. -/
theorem Reaches.head {a b c : α} (hb : b ∈ next a) (h : Reaches next b c) : Reaches next a c :=
  Relation.ReflTransGen.head hb h

/-- **A search finds what it can reach.** -/
theorem search_iff {size : α → Nat} (hsize : ∀ a, ∀ b ∈ next a, size b < size a) {f : α → Bool}
    (hf : ∀ a, f a = (hit a || (next a).any f)) (a : α) :
    f a = true ↔ ∃ b, Reaches next a b ∧ hit b = true := by
  constructor
  · intro ha
    induction hn : size a using Nat.strongRecOn generalizing a with
    | ind n ih =>
        rw [hf, Bool.or_eq_true, List.any_eq_true] at ha
        rcases ha with hhit | ⟨b, hb, hfb⟩
        · exact ⟨a, .refl a, hhit⟩
        · obtain ⟨c, hc, hhit⟩ := ih (size b) (hn ▸ hsize a b hb) b hfb rfl
          exact ⟨c, .head hb hc, hhit⟩
  · rintro ⟨b, hb, hhit⟩
    induction hb using Relation.ReflTransGen.head_induction_on with
    | refl => rw [hf, hhit, Bool.true_or]
    | head hc _ ih =>
        rw [hf, Bool.or_eq_true, List.any_eq_true]
        exact Or.inr ⟨_, hc, ih⟩

end Search

end GccXml
