import Mathlib.Data.List.TakeWhile

namespace GccXml

/-! # `Lib.CString` — strings that end in a NUL

A NUL-terminated string is given by the characters before its NUL, and a cursor into it by the characters from the
cursor to the NUL: the empty list is the cursor that stands on the NUL. -/

/-- The character that ends a string. -/
def nul : Char := '\x00'

/-- A NUL-terminated string, without its NUL. -/
structure CString where
  chars : List Char
  noNul : nul ∉ chars

/-- The string at the start of a buffer. -/
def cString (buffer : List Char) : List Char := buffer.takeWhile (· ≠ nul)

theorem cString_eq_self {buffer : List Char} (h : nul ∉ buffer) : cString buffer = buffer := by
  rw [cString, List.takeWhile_eq_self_iff]
  intro c hc
  simp only [decide_eq_true_eq]
  rintro rfl
  exact h hc

theorem nul_notMem_cString (line : List Char) : nul ∉ cString line := by
  intro hmem
  have hne := List.mem_takeWhile_imp hmem
  simp at hne

/-- `isspace` in the C locale. -/
def isspace (c : Char) : Bool := c = ' ' || ('\t' ≤ c && c ≤ '\r')

/-- What a walk over memory gives: a value, unless it reads behind the end of a string or of what was written. -/
inductive Read (α : Type) where
  | value (a : α)
  | outOfBounds
  deriving DecidableEq

namespace Read

def map {α β : Type} (f : α → β) : Read α → Read β
  | value a => value (f a)
  | outOfBounds => outOfBounds

def bind {α β : Type} (x : Read α) (f : α → Read β) : Read β :=
  match x with
  | value a => f a
  | outOfBounds => outOfBounds

end Read

end GccXml
