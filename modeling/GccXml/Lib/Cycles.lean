import Mathlib.Logic.Relation
import Mathlib.Order.WellFounded
import Mathlib.Data.Fintype.Order

namespace GccXml

/-! # `Lib.Cycles` — relations without cycles

Following a relation from a point ends if every path from it ends. On finitely many points this is so exactly when no
point leads back to itself. -/

namespace Cycles

variable {α : Type} {r : α → α → Prop}

/-- Every path of `r` from `a` ends. -/
def Ends (r : α → α → Prop) : α → Prop := Acc fun b a => r a b

/-- `a` leads back to itself. -/
def LeadsBack (r : α → α → Prop) (a : α) : Prop := Relation.TransGen r a a

theorem Ends.intro {a : α} (h : ∀ b, r a b → Ends r b) : Ends r a := Acc.intro a h

/-- A point that leads back to itself goes on to one that does. -/
theorem LeadsBack.next {a : α} (h : LeadsBack r a) : ∃ b, r a b ∧ LeadsBack r b := by
  obtain ⟨b, hab, hba⟩ := Relation.TransGen.head'_iff.mp h
  exact ⟨b, hab, Relation.TransGen.tail' hba hab⟩

/-- A path that ends does not lead back. -/
theorem Ends.not_leadsBack {a : α} (h : Ends r a) : ¬ LeadsBack r a := by
  induction h with
  | intro a _ ih =>
      intro hback
      obtain ⟨b, hab, hb⟩ := hback.next
      exact ih b hab hb

/-- **On finitely many points every path ends if no point leads back to itself.** -/
theorem ends_of_finite [Finite α] (h : ∀ a, ¬ LeadsBack r a) (a : α) : Ends r a := by
  have hirrefl : Std.Irrefl (Relation.TransGen fun b a => r a b) :=
    ⟨fun a hback => h a (Relation.transGen_swap.mp hback)⟩
  have hwf : WellFounded (Relation.TransGen fun b a => r a b) := Finite.wellFounded_of_trans_of_irrefl _
  exact (Subrelation.wf (fun hba => Relation.TransGen.single hba) hwf).apply a

end Cycles

end GccXml
