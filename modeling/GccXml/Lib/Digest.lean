import Mathlib.Data.List.Basic

namespace GccXml

/-! # `Lib.Digest` — folding over blocks

A checksum folds a function over the blocks of a text, all of the same size. A text can be folded in two parts as long as
the first one ends with a block. -/

variable {σ α : Type}

/-- Fold over the first `k` blocks of `n` elements. -/
def foldBlocks (f : σ → List α → σ) (n : Nat) : Nat → σ → List α → σ
  | 0, s, _ => s
  | k + 1, s, xs => foldBlocks f n k (f s (xs.take n)) (xs.drop n)

variable {f : σ → List α → σ} {n : Nat}

/-- What lies behind the blocks does not matter. -/
theorem foldBlocks_append_right {k : Nat} {xs : List α} (h : n * k ≤ xs.length) (s : σ) (ys : List α) :
    foldBlocks f n k s (xs ++ ys) = foldBlocks f n k s xs := by
  induction k generalizing s xs with
  | zero => rfl
  | succ k ih =>
      rw [Nat.mul_succ] at h
      have hn : n ≤ xs.length := by omega
      rw [foldBlocks, foldBlocks, List.take_append_of_le_length hn, List.drop_append_of_le_length hn]
      apply ih
      rw [List.length_drop]
      omega

/-- **Two parts** can be folded one after the other. -/
theorem foldBlocks_append {j : Nat} {xs : List α} (h : xs.length = n * j) (k : Nat) (s : σ) (ys : List α) :
    foldBlocks f n (j + k) s (xs ++ ys) = foldBlocks f n k (foldBlocks f n j s xs) ys := by
  induction j generalizing s xs with
  | zero =>
      obtain rfl := List.eq_nil_of_length_eq_zero h
      rw [Nat.zero_add]
      rfl
  | succ j ih =>
      rw [Nat.mul_succ] at h
      have hn : n ≤ xs.length := by omega
      rw [Nat.succ_add, foldBlocks, foldBlocks, List.take_append_of_le_length hn, List.drop_append_of_le_length hn]
      apply ih
      rw [List.length_drop]
      omega

end GccXml
