import Mathlib.Algebra.GroupWithZero.Nat
import Mathlib.Data.List.Basic

namespace GccXml

/-! # `Lib.Memory` — bytes in memory

`memcmp` orders pieces of memory of the same size by the first byte in which they differ. A number is stored in a number
of bytes, from the lowest to the highest or the other way. `memcpy` writes over a part of the memory and leaves the
rest. -/

/-! ## `memcmp` -/

/-- `memcmp`, of two pieces of memory of the same size. -/
def memcmp : List UInt8 → List UInt8 → Int
  | a :: as, b :: bs => if a = b then memcmp as bs else (a.toNat : Int) - b.toNat
  | _, _ => 0

section

variable {as bs cs as' bs' : List UInt8}

theorem toNat_sub_ne_zero {a b : UInt8} (h : a ≠ b) : (a.toNat : Int) - b.toNat ≠ 0 := by
  intro hzero
  exact h (UInt8.toNat_inj.mp (by omega))

theorem memcmp_eq_zero (hlength : as.length = bs.length) : memcmp as bs = 0 ↔ as = bs := by
  induction as generalizing bs with
  | nil => exact iff_of_true rfl (List.eq_nil_of_length_eq_zero hlength.symm).symm
  | cons a as ih =>
      cases bs with
      | nil => cases hlength
      | cons b bs =>
          rw [memcmp, List.cons.injEq]
          split
          · next heq => rw [ih (Nat.succ.inj hlength), and_iff_right heq]
          · next hne => exact iff_of_false (toNat_sub_ne_zero hne) fun h => hne h.1

/-- The first part decides, unless it is the same. -/
theorem memcmp_append (hlength : as.length = bs.length) :
    memcmp (as ++ as') (bs ++ bs') = if memcmp as bs = 0 then memcmp as' bs' else memcmp as bs := by
  induction as generalizing bs with
  | nil =>
      rw [List.eq_nil_of_length_eq_zero hlength.symm]
      rfl
  | cons a as ih =>
      cases bs with
      | nil => cases hlength
      | cons b bs =>
          rw [List.cons_append, List.cons_append, memcmp, memcmp]
          split
          · exact ih (Nat.succ.inj hlength)
          · next hne => rw [if_neg (toNat_sub_ne_zero hne)]

theorem memcmp_neg (as bs : List UInt8) : memcmp bs as = -memcmp as bs := by
  induction as generalizing bs with
  | nil => cases bs <;> rfl
  | cons a as ih =>
      cases bs with
      | nil => rfl
      | cons b bs =>
          rw [memcmp, memcmp]
          by_cases heq : a = b
          · rw [if_pos heq, if_pos heq.symm, ih]
          · rw [if_neg heq, if_neg (Ne.symm heq)]
            omega

theorem memcmp_trans (hab : as.length = bs.length) (hbc : bs.length = cs.length) (h : memcmp as bs ≤ 0)
    (h' : memcmp bs cs ≤ 0) : memcmp as cs ≤ 0 ∧ (memcmp as bs < 0 ∨ memcmp bs cs < 0 → memcmp as cs < 0) := by
  induction as generalizing bs cs with
  | nil =>
      obtain rfl := List.eq_nil_of_length_eq_zero hab.symm
      obtain rfl := List.eq_nil_of_length_eq_zero hbc.symm
      exact ⟨h, fun hor => hor.elim id id⟩
  | cons a as ih =>
      cases bs with
      | nil => cases hab
      | cons b bs =>
          cases cs with
          | nil => cases hbc
          | cons c cs =>
              rw [memcmp] at h h' ⊢
              rw [memcmp, memcmp]
              by_cases heq : a = b
              · subst heq
                rw [if_pos rfl] at h ⊢
                by_cases heq' : a = c
                · subst heq'
                  rw [if_pos rfl] at h' ⊢
                  rw [if_pos rfl]
                  exact ih (Nat.succ.inj hab) (Nat.succ.inj hbc) h h'
                · rw [if_neg heq'] at h' ⊢
                  have hne := toNat_sub_ne_zero heq'
                  omega
              · rw [if_neg heq] at h ⊢
                have hne := toNat_sub_ne_zero heq
                by_cases heq' : b = c
                · subst heq'
                  rw [if_neg heq]
                  omega
                · rw [if_neg heq'] at h' ⊢
                  have hac : a ≠ c := by
                    rintro rfl
                    omega
                  rw [if_neg hac]
                  omega

end

/-! ## Numbers -/

/-- In which order a machine stores the bytes of a number. -/
inductive ByteOrder where
  | little
  | big

/-- The lowest `k` bytes of a number, from the lowest on. -/
def lowBytes : Nat → Nat → List UInt8
  | 0, _ => []
  | k + 1, n => UInt8.ofNat n :: lowBytes k (n / 256)

def ofLowBytes : List UInt8 → Nat
  | [] => 0
  | b :: bs => b.toNat + 256 * ofLowBytes bs

namespace ByteOrder

/-- The `k` bytes in which the machine stores a number. -/
def store (order : ByteOrder) (k n : Nat) : List UInt8 :=
  match order with
  | little => lowBytes k n
  | big => (lowBytes k n).reverse

def load (order : ByteOrder) (bytes : List UInt8) : Nat :=
  match order with
  | little => ofLowBytes bytes
  | big => ofLowBytes bytes.reverse

end ByteOrder

section

variable {order : ByteOrder} {k n m : Nat}

@[simp] theorem length_lowBytes (k n : Nat) : (lowBytes k n).length = k := by
  induction k generalizing n with
  | zero => rfl
  | succ k ih => rw [lowBytes, List.length_cons, ih]

/-- The bytes of a number that is put together from two. -/
theorem lowBytes_append (j : Nat) (hn : n < 256 ^ k) : lowBytes k n ++ lowBytes j m = lowBytes (k + j) (n + 256 ^ k * m) := by
  induction k generalizing n with
  | zero =>
      obtain rfl := Nat.lt_one_iff.mp hn
      rw [Nat.zero_add, Nat.zero_add, Nat.pow_zero, Nat.one_mul]
      rfl
  | succ k ih =>
      have hdiv : n / 256 < 256 ^ k := by
        apply Nat.div_lt_of_lt_mul
        rwa [Nat.mul_comm, ← Nat.pow_succ]
      have hsum : n + 256 ^ (k + 1) * m = n + 256 * (256 ^ k * m) := by
        rw [Nat.pow_succ, Nat.mul_comm (256 ^ k), Nat.mul_assoc]
      have hlow : UInt8.ofNat (n + 256 * (256 ^ k * m)) = UInt8.ofNat n := by
        apply UInt8.toNat_inj.mp
        show (n + 256 * (256 ^ k * m)) % 256 = n % 256
        exact Nat.add_mul_mod_self_left n 256 _
      rw [Nat.succ_add, lowBytes, lowBytes, hsum, hlow, Nat.add_mul_div_left n _ (by decide), List.cons_append, ih hdiv]

/-- Only the lowest bytes are stored. -/
theorem lowBytes_mod (k n : Nat) : lowBytes k (n % 256 ^ k) = lowBytes k n := by
  induction k generalizing n with
  | zero => rfl
  | succ k ih =>
      have hlow : UInt8.ofNat (n % 256 ^ (k + 1)) = UInt8.ofNat n := by
        apply UInt8.toNat_inj.mp
        show n % 256 ^ (k + 1) % 256 = n % 256
        exact Nat.mod_mod_of_dvd n ⟨256 ^ k, by rw [Nat.pow_succ, Nat.mul_comm]⟩
      have hdiv : n % 256 ^ (k + 1) / 256 = n / 256 % 256 ^ k := by
        rw [Nat.pow_succ, Nat.mul_comm, Nat.mod_mul_right_div_self]
      rw [lowBytes, lowBytes, hlow, hdiv, ih]

theorem ofLowBytes_lowBytes (h : n < 256 ^ k) : ofLowBytes (lowBytes k n) = n := by
  induction k generalizing n with
  | zero => exact (Nat.lt_one_iff.mp h).symm
  | succ k ih =>
      have hdiv : n / 256 < 256 ^ k := by
        apply Nat.div_lt_of_lt_mul
        rwa [Nat.mul_comm, ← Nat.pow_succ]
      have hlow : (UInt8.ofNat n).toNat = n % 256 := rfl
      rw [lowBytes, ofLowBytes, ih hdiv, hlow, Nat.mod_add_div]

theorem ofLowBytes_lt (bytes : List UInt8) : ofLowBytes bytes < 256 ^ bytes.length := by
  induction bytes with
  | nil => exact Nat.one_pos
  | cons b bytes ih =>
      have hb := b.toNat_lt
      rw [ofLowBytes, List.length_cons, Nat.pow_succ]
      omega

theorem lowBytes_inj (hn : n < 256 ^ k) (hm : m < 256 ^ k) : lowBytes k n = lowBytes k m ↔ n = m := by
  constructor
  · intro h
    rw [← ofLowBytes_lowBytes hn, h, ofLowBytes_lowBytes hm]
  · intro h
    rw [h]

@[simp] theorem ByteOrder.length_store (order : ByteOrder) (k n : Nat) : (order.store k n).length = k := by
  cases order with
  | little => exact length_lowBytes k n
  | big => rw [store, List.length_reverse, length_lowBytes]

theorem ByteOrder.load_store (h : n < 256 ^ k) : order.load (order.store k n) = n := by
  cases order with
  | little => exact ofLowBytes_lowBytes h
  | big => rw [store, load, List.reverse_reverse, ofLowBytes_lowBytes h]

/-- Two numbers that are stored alike are the same. -/
theorem ByteOrder.store_inj (hn : n < 256 ^ k) (hm : m < 256 ^ k) : order.store k n = order.store k m ↔ n = m := by
  cases order with
  | little => exact lowBytes_inj hn hm
  | big => rw [store, store, List.reverse_inj, lowBytes_inj hn hm]

end

/-! ## `memcpy` -/

/-- `memcpy (memory + i, bytes, …)`. -/
def memcpy (memory : List UInt8) (i : Nat) (bytes : List UInt8) : List UInt8 :=
  memory.take i ++ (bytes ++ memory.drop (i + bytes.length))

section

variable {memory bytes : List UInt8} {i : Nat}

theorem length_memcpy (h : i + bytes.length ≤ memory.length) : (memcpy memory i bytes).length = memory.length := by
  simp only [memcpy, List.length_append, List.length_take, List.length_drop]
  omega

/-- The memory up to the end of what was copied. -/
theorem take_memcpy (h : i + bytes.length ≤ memory.length) :
    (memcpy memory i bytes).take (i + bytes.length) = memory.take i ++ bytes := by
  have hlength : (memory.take i ++ bytes).length = i + bytes.length := by
    rw [List.length_append, List.length_take]
    omega
  rw [memcpy, ← List.append_assoc, List.take_left' hlength]

end

end GccXml
