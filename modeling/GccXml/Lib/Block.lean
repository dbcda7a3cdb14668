import GccXml.Lib.CString

namespace GccXml

/-! # `Lib.Block` — writing to memory from `malloc`

A program that fills a block from its beginning on keeps it filled up to where it stands: what lies behind has not been
written yet, or will be written again. -/

/-- A block of memory; a cell that was not written has no value. -/
abbrev Block := List (Option Char)

namespace Block

/-- `malloc`. -/
def malloc (size : Nat) : Block := List.replicate size none

/-- `block[i] = c`. -/
def store (block : Block) (i : Nat) (c : Char) : Read Block :=
  if i < block.length then .value (block.set i (some c)) else .outOfBounds

/-- Write the characters from `block[i]` on. -/
def storeAll (block : Block) (i : Nat) : List Char → Read Block
  | [] => .value block
  | c :: cs => (block.store i c).bind fun block => block.storeAll (i + 1) cs

/-- `strcpy (block + i, text)`: the NUL is copied as well. -/
def strcpy (block : Block) (i : Nat) (text : List Char) : Read Block := block.storeAll i (text ++ [nul])

/-- The block begins with what was written, and has room for more. -/
def FilledTo (block : Block) (written : List Char) (room : Nat) : Prop :=
  ∃ tail : Block, tail.length = room ∧ block = written.map some ++ tail

section

variable {block : Block} {written text : List Char} {room : Nat}

theorem filledTo_malloc (size : Nat) : FilledTo (malloc size) [] size := ⟨malloc size, by simp [malloc], rfl⟩

/-- A block without room is written to its end. -/
theorem FilledTo.eq (h : FilledTo block written 0) : block = written.map some := by
  obtain ⟨tail, htail, rfl⟩ := h
  rw [List.eq_nil_of_length_eq_zero htail, List.append_nil]

/-- Storing the next character. -/
theorem FilledTo.store (h : FilledTo block written (room + 1)) (c : Char) :
    ∃ block', block.store written.length c = .value block' ∧ FilledTo block' (written ++ [c]) room := by
  obtain ⟨tail, htail, rfl⟩ := h
  obtain ⟨x, tail, rfl⟩ := List.exists_cons_of_length_eq_add_one htail
  have hlt : written.length < (written.map some ++ x :: tail).length := by simp
  refine ⟨_, if_pos hlt, tail, by simpa using htail, ?_⟩
  simp [List.set_append_right]

/-- Storing a text. -/
theorem FilledTo.storeAll (h : FilledTo block written (text.length + room)) :
    ∃ block', block.storeAll written.length text = .value block' ∧ FilledTo block' (written ++ text) room := by
  induction text generalizing block written with
  | nil => exact ⟨block, rfl, by simpa using h⟩
  | cons c text ih =>
      have hroom : (c :: text).length + room = text.length + room + 1 := by
        rw [List.length_cons]
        omega
      rw [hroom] at h
      obtain ⟨block₁, hstore, hfilled⟩ := h.store c
      obtain ⟨block₂, hrest, hfilled'⟩ := ih hfilled
      refine ⟨block₂, ?_, by simpa using hfilled'⟩
      rw [List.length_append] at hrest
      rw [Block.storeAll, hstore]
      exact hrest

/-- Copying a text: the place of its NUL is written again afterwards. -/
theorem FilledTo.strcpy (h : FilledTo block written (text.length + (room + 1))) :
    ∃ block', block.strcpy written.length text = .value block' ∧ FilledTo block' (written ++ text) (room + 1) := by
  have hroom : text.length + (room + 1) = (text ++ [nul]).length + room := by
    simp only [List.length_append, List.length_cons, List.length_nil]
    omega
  rw [hroom] at h
  obtain ⟨block', hstore, tail, htail, rfl⟩ := h.storeAll
  refine ⟨_, hstore, some nul :: tail, by simp [htail], by simp⟩

end

end Block

end GccXml
