import Mathlib.Data.List.Basic

namespace GccXml

/-! # `Lib.Moves` — ways through a tree of names

A path names a way: it stays, goes up, or goes down to a name. From the root no way leads up, so a way that goes up more
often than it went down before stays at the root. A stack of names finds the end of a way; when the root lies on the same
stack, it stays there only as long as the way stays below it. -/

/-- One part of a way. -/
inductive Move (α : Type) where
  | stay
  | up
  | down (a : α)

namespace Move

variable {α : Type} {here names : List α} {moves moves' : List (Move α)}

/-- The end of a way that begins below the root at `here`. -/
def follow (here : List α) : List (Move α) → List α
  | [] => here
  | stay :: moves => follow here moves
  | up :: moves => follow here.dropLast moves
  | down a :: moves => follow (here ++ [a]) moves

/-- The way never goes up from the root when it begins at this depth. -/
def StaysBelow : Nat → List (Move α) → Prop
  | _, [] => True
  | depth, stay :: moves => StaysBelow depth moves
  | 0, up :: _ => False
  | depth + 1, up :: moves => StaysBelow depth moves
  | depth, down _ :: moves => StaysBelow (depth + 1) moves

instance decidableStaysBelow : (depth : Nat) → (moves : List (Move α)) → Decidable (StaysBelow depth moves)
  | _, [] => .isTrue trivial
  | depth, stay :: moves => decidableStaysBelow depth moves
  | 0, up :: _ => .isFalse id
  | depth + 1, up :: moves => decidableStaysBelow depth moves
  | depth, down _ :: moves => decidableStaysBelow (depth + 1) moves

theorem follow_append (here : List α) (moves moves' : List (Move α)) :
    follow here (moves ++ moves') = follow (follow here moves) moves' := by
  induction moves generalizing here with
  | nil => rfl
  | cons move moves ih => cases move <;> exact ih _

/-- Down through names. -/
theorem follow_down (here names : List α) : follow here (names.map down) = here ++ names := by
  induction names generalizing here with
  | nil => exact (List.append_nil _).symm
  | cons a names ih => rw [List.map_cons, follow, ih, List.append_assoc, List.singleton_append]

/-- The names on the way are those it began at and those it went down to. -/
theorem mem_follow {a : α} (h : a ∈ follow here moves) : a ∈ here ∨ down a ∈ moves := by
  induction moves generalizing here with
  | nil => exact .inl h
  | cons move moves ih =>
      cases move with
      | stay => exact (ih h).imp_right (List.mem_cons_of_mem _)
      | up => exact (ih h).imp (fun ha => List.dropLast_subset _ ha) (List.mem_cons_of_mem _)
      | down b =>
          rcases ih h with ha | ha
          · rcases List.mem_append.mp ha with hhere | hb
            · exact .inl hhere
            · cases List.mem_singleton.mp hb
              exact .inr List.mem_cons_self
          · exact .inr (List.mem_cons_of_mem _ ha)

/-- **A stack with the root on it** keeps the root if and only if the way stays below it. -/
theorem follow_cons (root : α) (here : List α) (moves : List (Move α)) :
    follow (root :: here) moves = (if StaysBelow here.length moves then [root] else []) ++ follow here moves := by
  induction moves generalizing here with
  | nil => rfl
  | cons move moves ih =>
      cases move with
      | stay => exact ih here
      | up =>
          cases here with
          | nil => rfl
          | cons a here =>
              have hlength : (a :: here).dropLast.length = here.length := List.length_dropLast ..
              show follow (root :: (a :: here).dropLast) moves = _
              rw [ih, hlength]
              rfl
      | down b =>
          have hlength : (here ++ [b]).length = here.length + 1 := List.length_append ..
          show follow (root :: (here ++ [b])) moves = _
          rw [ih, hlength]
          rfl

end Move

end GccXml
