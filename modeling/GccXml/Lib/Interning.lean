import Mathlib.Data.List.Induction
import Mathlib.Data.List.Nodup

namespace GccXml

/-! # `Lib.Interning` — tables that number keys in order of first use

A table gives each new key the next number. After the keys `xs` have been looked up it holds `xs.eraseDups`, and the
number of a key is its place there. -/

namespace Interning

variable {α β : Type} [DecidableEq α]

/-! ## Keys in order of first use -/

theorem nodup_eraseDups (xs : List α) : xs.eraseDups.Nodup := by
  generalize hn : xs.length = n
  induction n using Nat.strongRecOn generalizing xs with
  | ind n ih =>
      cases xs with
      | nil => exact List.nodup_nil
      | cons x xs =>
          rw [List.eraseDups_cons, List.nodup_cons]
          have hle := List.length_filter_le (fun y => !y == x) xs
          refine ⟨fun hx => ?_, ih _ (by rw [← hn, List.length_cons]; omega) _ rfl⟩
          simp [List.mem_eraseDups] at hx

/-- Looking up one more key. -/
theorem eraseDups_concat (xs : List α) (x : α) :
    (xs ++ [x]).eraseDups = if x ∈ xs then xs.eraseDups else xs.eraseDups ++ [x] := by
  rw [List.eraseDups_append]
  split
  · rename_i hx
    simp [List.removeAll, hx]
  · rename_i hx
    simp [List.removeAll, hx, List.eraseDups_cons]

/-- First uses are first uses under another name. -/
theorem eraseDups_map [DecidableEq β] {xs : List α} {f : α → β} (hf : ∀ x ∈ xs, ∀ y ∈ xs, f x = f y → x = y) :
    (xs.map f).eraseDups = xs.eraseDups.map f := by
  induction xs using List.reverseRecOn with
  | nil => rfl
  | append_singleton xs x ih =>
      have hrest := ih fun y hy z hz => hf y (List.mem_append_left _ hy) z (List.mem_append_left _ hz)
      have hmem : f x ∈ xs.map f ↔ x ∈ xs := by
        refine ⟨fun h => ?_, List.mem_map_of_mem⟩
        obtain ⟨y, hy, heq⟩ := List.mem_map.mp h
        have hyx := hf y (List.mem_append_left _ hy) x (List.mem_append_right _ List.mem_cons_self) heq
        exact hyx ▸ hy
      rw [List.map_append, List.map_singleton, eraseDups_concat, eraseDups_concat, hrest]
      by_cases hx : x ∈ xs
      · rw [if_pos hx, if_pos (hmem.mpr hx)]
      · rw [if_neg hx, if_neg fun h => hx (hmem.mp h), List.map_append, List.map_singleton]

/-! ## Numbers -/

/-- The numbers that the keys `xs` get, in turn. -/
def numbers (xs : List α) : List Nat := xs.map xs.eraseDups.idxOf

/-- Two keys have the same number only if they are the same. -/
theorem idxOf_inj {xs : List α} {x y : α} (hx : x ∈ xs) (h : xs.idxOf x = xs.idxOf y) : x = y := by
  have hlt : xs.idxOf x < xs.length := List.idxOf_lt_length_of_mem hx
  have hget : xs.get ⟨xs.idxOf x, hlt⟩ = x := List.getElem_idxOf hlt
  have hget' : xs.get ⟨xs.idxOf y, h ▸ hlt⟩ = y := List.getElem_idxOf (h ▸ hlt)
  simp only [h] at hget
  exact hget.symm.trans hget'

theorem map_idxOf_self {xs : List α} (h : xs.Nodup) : xs.map xs.idxOf = List.range xs.length := by
  refine List.ext_getElem (by simp) fun i hi _ => ?_
  have hi : i < xs.length := by simpa using hi
  rw [List.getElem_map, List.getElem_range]
  exact List.get_idxOf h ⟨i, hi⟩

/-- The table of the keys `xs` holds each key with its number. -/
theorem zipIdx_eq_map {xs : List α} (h : xs.Nodup) : xs.zipIdx = xs.map fun x => (x, xs.idxOf x) := by
  refine List.ext_getElem (by simp) fun i hi _ => ?_
  have hi : i < xs.length := by simpa using hi
  rw [List.getElem_zipIdx, List.getElem_map, Nat.zero_add]
  exact congrArg _ (List.get_idxOf h ⟨i, hi⟩).symm

/-- **The numbers are 0, 1, 2, … in order of first use**, one for each key. -/
theorem eraseDups_numbers (xs : List α) : (numbers xs).eraseDups = List.range xs.eraseDups.length := by
  have hinj : ∀ x ∈ xs, ∀ y ∈ xs, xs.eraseDups.idxOf x = xs.eraseDups.idxOf y → x = y :=
    fun x hx _ _ h => idxOf_inj (List.mem_eraseDups.mpr hx) h
  rw [numbers, eraseDups_map hinj]
  exact map_idxOf_self (nodup_eraseDups xs)

/-- The number that goes with a key. -/
theorem snd_of_mem_zip_numbers {xs : List α} {p : α × Nat} (hp : p ∈ xs.zip (numbers xs)) :
    p.2 = xs.eraseDups.idxOf p.1 := by
  have hzip : xs.zip (numbers xs) = xs.map fun x => (x, xs.eraseDups.idxOf x) := by
    simpa [numbers] using @List.zip_map' _ _ _ id xs.eraseDups.idxOf xs
  rw [hzip] at hp
  obtain ⟨x, -, rfl⟩ := List.mem_map.mp hp
  rfl

/-- **Same number, same key.** -/
theorem zip_numbers {xs : List α} {p q : α × Nat} (hp : p ∈ xs.zip (numbers xs)) (hq : q ∈ xs.zip (numbers xs)) :
    p.2 = q.2 ↔ p.1 = q.1 := by
  have hmem : p.1 ∈ xs := (List.of_mem_zip hp).1
  rw [snd_of_mem_zip_numbers hp, snd_of_mem_zip_numbers hq]
  exact ⟨fun h => idxOf_inj (List.mem_eraseDups.mpr hmem) h, fun h => by rw [h]⟩

end Interning

end GccXml
