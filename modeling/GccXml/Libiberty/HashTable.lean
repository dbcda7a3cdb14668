import GccXml.Lib.Division
import GccXml.Lib.Probing
import Mathlib.Tactic.NormNum.Prime

namespace GccXml

/-! # `Libiberty.HashTable` — the expandable hash tables

`hashtab.c`: open addressing with double hashing, in tables whose sizes are primes near the powers of two. The table of
primes also has the multipliers with which the code divides by a prime, and by two less than it. A `hashval_t` has 32
bits and a `size_t` 64; allocation does not fail. What follows an invalid pointer, or ends in `abort`, gives `none`.

The functions come first, in the order of the source and with its loops as passes. The callbacks of a table are
arguments: the hash of an entry, and the test whether an entry is the one that is looked for.

Then the table of primes. `htab_mod_1` divides by multiplying, taking the upper half, and shifting, and it is a
division for all 32-bit numbers if the multiplier is close enough to a power of two over the divisor (`Divides`, from
`Lib.Division`). That all multipliers are, and that the numbers of the table are odd, increasing and without small
divisors, is checked by evaluation over the table, once. The last prime is left out of this: no table of that size is
made, and it would take the most time. `higher_prime_index` is a binary search in the table, with what is below and
above as its invariant. -/

namespace HashTable

open Probing (Slot live deletions)

/-! ## The functions -/

/-- `prime_ent`. -/
structure PrimeEnt where
  prime : Nat
  inv : Nat
  invM2 : Nat
  shift : Nat

/-- `prime_tab`. -/
def primeTab : List PrimeEnt :=
  [⟨7, 0x24924925, 0x9999999b, 2⟩,
   ⟨13, 0x3b13b13c, 0x745d1747, 3⟩,
   ⟨31, 0x08421085, 0x1a7b9612, 4⟩,
   ⟨61, 0x0c9714fc, 0x15b1e5f8, 5⟩,
   ⟨127, 0x02040811, 0x0624dd30, 6⟩,
   ⟨251, 0x05197f7e, 0x073260a5, 7⟩,
   ⟨509, 0x01824366, 0x02864fc8, 8⟩,
   ⟨1021, 0x00c0906d, 0x014191f7, 9⟩,
   ⟨2039, 0x0121456f, 0x0161e69e, 10⟩,
   ⟨4093, 0x00300902, 0x00501908, 11⟩,
   ⟨8191, 0x00080041, 0x00180241, 12⟩,
   ⟨16381, 0x000c0091, 0x00140191, 13⟩,
   ⟨32749, 0x002605a5, 0x002a06e6, 14⟩,
   ⟨65521, 0x000f00e2, 0x00110122, 15⟩,
   ⟨131071, 0x00008001, 0x00018003, 16⟩,
   ⟨262139, 0x00014002, 0x0001c004, 17⟩,
   ⟨524287, 0x00002001, 0x00006001, 18⟩,
   ⟨1048573, 0x00003001, 0x00005001, 19⟩,
   ⟨2097143, 0x00004801, 0x00005801, 20⟩,
   ⟨4194301, 0x00000c01, 0x00001401, 21⟩,
   ⟨8388593, 0x00001e01, 0x00002201, 22⟩,
   ⟨16777213, 0x00000301, 0x00000501, 23⟩,
   ⟨33554393, 0x00001381, 0x00001481, 24⟩,
   ⟨67108859, 0x00000141, 0x000001c1, 25⟩,
   ⟨134217689, 0x000004e1, 0x00000521, 26⟩,
   ⟨268435399, 0x00000391, 0x000003b1, 27⟩,
   ⟨536870909, 0x00000019, 0x00000029, 28⟩,
   ⟨1073741789, 0x0000008d, 0x00000095, 29⟩,
   ⟨2147483647, 0x00000003, 0x00000007, 30⟩,
   ⟨0xfffffffb, 0x00000006, 0x00000008, 31⟩]

/-- One pass of the loop of `higher_prime_index`. When `n` is above all primes, the code looks behind the table. -/
def higherPrimePass (n : Nat) : Nat × Nat → Pass (Nat × Nat) (Option Nat)
  | (low, high) =>
      if low ≠ high then
        let mid := low + (high - low) / 2
        match primeTab[mid]? with
        | none => .leave none
        | some p => if n > p.prime then .again (mid + 1, high) else .again (low, mid)
      else
        match primeTab[low]? with
        | none => .leave none
        | some p => if n > p.prime then .leave none else .leave (some low)

/-- `higher_prime_index`. -/
def higherPrimeIndex (n : Nat) : Option Nat := (loopRun (higherPrimePass n) (primeTab.length + 1) (0, primeTab.length)).join

/-- `htab_mod_1`. -/
def htabMod1 (x y inv shift : Nat) : Nat :=
  let t1 := x * inv / 2 ^ 32 % 2 ^ 32
  let t2 := (x + 2 ^ 32 - t1) % 2 ^ 32
  let t3 := t2 / 2
  let t4 := (t1 + t3) % 2 ^ 32
  let q := t4 / 2 ^ shift
  (x + 2 ^ 32 - q * y % 2 ^ 32) % 2 ^ 32

/-- `htab_hash_string`. -/
def htabHashString (text : List Char) : UInt32 :=
  text.foldl (fun r c => r * 67 + c.toNat.toUInt32 - 113) 0

/-- `struct htab`, without the functions and the statistics. -/
structure Htab (E : Type) where
  entries : List (Slot E)
  size : Nat
  nElements : Nat
  nDeleted : Nat
  sizePrimeIndex : Nat

variable {E : Type}

/-- What `find_slot` comes to: an entry that is equal to the element, or an empty slot, with the first deleted one. -/
inductive Probed where
  | found (index : Nat)
  | empty (index : Nat) (firstDeletedSlot : Option Nat)

namespace Htab

variable (t : Htab E)

/-- `htab_mod`. -/
def htabMod (hash : UInt32) : Option Nat :=
  primeTab[t.sizePrimeIndex]?.map fun p => htabMod1 hash.toNat p.prime p.inv p.shift

/-- `htab_mod_m2`. -/
def htabModM2 (hash : UInt32) : Option Nat :=
  primeTab[t.sizePrimeIndex]?.map fun p => (1 + htabMod1 hash.toNat (p.prime - 2) p.invM2 p.shift) % 2 ^ 32

/-- `index += hash2`, and back into the table. -/
def nextIndex (hash2 index : Nat) : Nat :=
  let index := (index + hash2) % 2 ^ 32
  if index ≥ t.size then index - t.size else index

/-- `htab_elements`. -/
def htabElements : Nat := t.nElements - t.nDeleted

end Htab

open Htab

/-- `htab_create`. -/
def htabCreate (E : Type) (size : Nat) : Option (Htab E) := do
  let sizePrimeIndex ← higherPrimeIndex size
  let p ← primeTab[sizePrimeIndex]?
  some { entries := List.replicate p.prime .empty, size := p.prime, nElements := 0, nDeleted := 0, sizePrimeIndex }

/-- One pass of the loop of `find_empty_slot_for_expand`. -/
def emptySlotPass (t : Htab E) (hash2 index : Nat) : Pass Nat (Option Nat) :=
  match t.entries[index]? with
  | none => .leave none
  | some .empty => .leave (some index)
  | some .deleted => .leave none
  | some (.entry _) => .again (t.nextIndex hash2 index)

/-- `find_empty_slot_for_expand`. -/
def findEmptySlotForExpand (t : Htab E) (hash : UInt32) : Option Nat := do
  let index ← t.htabMod hash
  let hash2 ← t.htabModM2 hash
  (loopRun (emptySlotPass t hash2) t.size index).join

/-- One pass of the loop of `htab_expand`, for the old slot `x`. -/
def reinsert (hashF : E → UInt32) (t : Htab E) (x : Slot E) : Option (Htab E) :=
  match x with
  | .entry e => do
      let q ← findEmptySlotForExpand t (hashF e)
      some { t with entries := t.entries.set q (.entry e) }
  | _ => some t

/-- The index and the size that `htab_expand` chooses. -/
def expandedSize (t : Htab E) : Option (Nat × Nat) :=
  let elts := t.htabElements
  if elts * 2 > t.size ∨ elts * 8 < t.size ∧ t.size > 32 then do
    let nindex ← higherPrimeIndex (elts * 2)
    let p ← primeTab[nindex]?
    some (nindex, p.prime)
  else some (t.sizePrimeIndex, t.size)

/-- `htab_expand`. -/
def htabExpand (hashF : E → UInt32) (t : Htab E) : Option (Htab E) := do
  let (nindex, nsize) ← expandedSize t
  t.entries.foldlM (reinsert hashF)
    { entries := List.replicate nsize .empty, size := nsize, nElements := t.nElements - t.nDeleted, nDeleted := 0,
      sizePrimeIndex := nindex }

/-- One pass of the loop of `htab_find_with_hash`. -/
def findPass (t : Htab E) (eqF : E → Bool) (hash2 index : Nat) : Pass Nat (Option (Option E)) :=
  match t.entries[index]? with
  | none => .leave none
  | some .empty => .leave (some none)
  | some .deleted => .again (t.nextIndex hash2 index)
  | some (.entry e) => if eqF e then .leave (some (some e)) else .again (t.nextIndex hash2 index)

/-- `htab_find_with_hash`. -/
def htabFindWithHash (t : Htab E) (eqF : E → Bool) (hash : UInt32) : Option (Option E) := do
  let index ← t.htabMod hash
  let hash2 ← t.htabModM2 hash
  (loopRun (findPass t eqF hash2) t.size index).join

/-- One pass of the loop of `htab_find_slot_with_hash`, with the first deleted slot so far. -/
def slotPass (t : Htab E) (eqF : E → Bool) (hash2 : Nat) :
    Nat × Option Nat → Pass (Nat × Option Nat) (Option Probed)
  | (index, firstDeletedSlot) =>
      match t.entries[index]? with
      | none => .leave none
      | some .empty => .leave (some (.empty index firstDeletedSlot))
      | some .deleted => .again (t.nextIndex hash2 index, firstDeletedSlot.or (some index))
      | some (.entry e) =>
          if eqF e then .leave (some (.found index)) else .again (t.nextIndex hash2 index, firstDeletedSlot)

/-- The search of `htab_find_slot_with_hash`. -/
def probeSlot (t : Htab E) (eqF : E → Bool) (hash : UInt32) : Option Probed := do
  let index ← t.htabMod hash
  let hash2 ← t.htabModM2 hash
  (loopRun (slotPass t eqF hash2) t.size (index, none)).join

/-- The first step of `htab_find_slot_with_hash`: a table that is nearly full is expanded before an insertion. -/
def expandIfFull (hashF : E → UInt32) (t : Htab E) (insert : Bool) : Option (Htab E) :=
  if insert ∧ t.size * 3 ≤ t.nElements * 4 then htabExpand hashF t else some t

/-- The last step of `htab_find_slot_with_hash`: the slot, or a null pointer. A slot for a new entry is counted, and the
    first deleted one is taken before the empty one. -/
def takeSlot (t : Htab E) (insert : Bool) : Probed → Htab E × Option Nat
  | .found index => (t, some index)
  | .empty index firstDeletedSlot =>
      if !insert then (t, none)
      else
        match firstDeletedSlot with
        | some slot => ({ t with nDeleted := t.nDeleted - 1, entries := t.entries.set slot .empty }, some slot)
        | none => ({ t with nElements := t.nElements + 1 }, some index)

/-- `htab_find_slot_with_hash`. -/
def htabFindSlotWithHash (hashF : E → UInt32) (t : Htab E) (eqF : E → Bool) (hash : UInt32) (insert : Bool) :
    Option (Htab E × Option Nat) := do
  let t ← expandIfFull hashF t insert
  let probed ← probeSlot t eqF hash
  some (takeSlot t insert probed)

/-- Mark a slot as deleted. -/
def markDeleted (t : Htab E) (slot : Nat) : Htab E :=
  { t with entries := t.entries.set slot .deleted, nDeleted := t.nDeleted + 1 }

/-- `htab_remove_elt_with_hash`, with what is given to `del_f`. The slot of an element that is not in the table is a null
    pointer, and is read all the same. -/
def htabRemoveEltWithHash (hashF : E → UInt32) (t : Htab E) (eqF : E → Bool) (hash : UInt32) :
    Option (Htab E × Option E) := do
  let (t, slot) ← htabFindSlotWithHash hashF t eqF hash false
  let slot ← slot
  match ← t.entries[slot]? with
  | .empty => some (t, none)
  | x => some (markDeleted t slot, x.content)

/-- `htab_clear_slot`, with what is given to `del_f`. -/
def htabClearSlot (t : Htab E) (slot : Nat) : Option (Htab E × Option E) := do
  match ← t.entries[slot]? with
  | .empty => none
  | .deleted => none
  | .entry e => some (markDeleted t slot, some e)

/-- The entries that `htab_empty` and `htab_delete` give to `del_f`, in this order. -/
def deletedEntries (t : Htab E) : List E := t.entries.reverse.filterMap Slot.content

/-- `htab_empty`. -/
def htabEmpty (t : Htab E) : Option (Htab E) :=
  -- instead of clearing a megabyte, the table is made small
  if t.size > 1024 * 1024 / 8 then do
    let nindex ← higherPrimeIndex (1024 / 8)
    let p ← primeTab[nindex]?
    some { entries := List.replicate p.prime .empty, size := p.prime, nElements := 0, nDeleted := 0,
           sizePrimeIndex := nindex }
  else some { t with entries := List.replicate t.size .empty, nElements := 0, nDeleted := 0 }

/-- The loop of `htab_traverse_noresize`, for a callback that leaves the slot alone and says whether to go on. -/
def visit {σ : Type} (callback : E → σ → σ × Bool) : List (Slot E) → σ → σ
  | [], s => s
  | .entry e :: slots, s =>
      match callback e s with
      | (s, true) => visit callback slots s
      | (s, false) => s
  | _ :: slots, s => visit callback slots s

/-- `htab_traverse`. -/
def htabTraverse {σ : Type} (hashF : E → UInt32) (callback : E → σ → σ × Bool) (t : Htab E) (s : σ) :
    Option (Htab E × σ) := do
  let t ← if t.htabElements * 8 < t.size then htabExpand hashF t else some t
  some (t, visit callback t.entries s)

/-! ## The table of primes -/

/-- **The primes and the multipliers** are right: the primes increase, each is prime but for the last one, which is not
    looked at here, and the multipliers are good enough for 32 bits. -/
theorem primeTab_primes : ∀ p ∈ primeTab.take 29, p.prime = 7 ∨ 1 < p.prime ∧ p.prime % 2 ≠ 0 ∧ p.prime % 3 ≠ 0 ∧
    Division.noDivisor p.prime ((p.shift - 3) / 2) 0 = true ∧
      p.prime < (6 * 2 ^ ((p.shift - 3) / 2) + 5) * (6 * 2 ^ ((p.shift - 3) / 2) + 5) := by
  decide +kernel

/-- The multiplier `inv` divides by `d`. -/
def Divides (d inv shift : Nat) : Prop :=
  0 < d ∧ inv < 2 ^ 32 ∧ 2 ^ (32 + (shift + 1)) ≤ (2 ^ 32 + inv) * d ∧
    (2 ^ 32 + inv) * d ≤ 2 ^ (32 + (shift + 1)) + 2 ^ (shift + 1)

instance (d inv shift : Nat) : Decidable (Divides d inv shift) :=
  inferInstanceAs (Decidable (_ ∧ _ ∧ _ ∧ _))

theorem primeTab_divides :
    ∀ p ∈ primeTab, Divides p.prime p.inv p.shift ∧ Divides (p.prime - 2) p.invM2 p.shift ∧ p.prime < 2 ^ 32 ∧ 7 ≤ p.prime := by
  decide

theorem primeTab_sorted : primeTab.Pairwise fun p q => p.prime < q.prime := by decide

/-- **`htab_mod_1`** is the remainder. -/
theorem htabMod1_eq {d inv shift x : Nat} (h : Divides d inv shift) (hx : x < 2 ^ 32) : htabMod1 x d inv shift = x % d := by
  obtain ⟨hd, hinv, hlow, hhigh⟩ := h
  have hquotient := Division.div_by_multiplication hd hinv hlow hhigh hx
  have htop : x * inv / 2 ^ 32 ≤ x := by
    apply Nat.div_le_of_le_mul
    rw [Nat.mul_comm (2 ^ 32)]
    exact Nat.mul_le_mul_left x (Nat.le_of_lt hinv)
  have hle : x / d * d ≤ x := Nat.div_mul_le_self x d
  have hmod : x % d = x - x / d * d := by rw [Nat.mod_eq_sub, Nat.mul_comm]
  unfold htabMod1
  dsimp only
  -- nothing leaves the word
  rw [Nat.mod_eq_of_lt (Nat.lt_of_le_of_lt htop hx)]
  generalize x * inv / 2 ^ 32 = t1 at hquotient htop ⊢
  rw [show (x + 2 ^ 32 - t1) % 2 ^ 32 = x - t1 by omega, show (t1 + (x - t1) / 2) % 2 ^ 32 = t1 + (x - t1) / 2 by omega,
    hquotient, Nat.mod_eq_of_lt (Nat.lt_of_le_of_lt hle hx)]
  generalize x / d * d = y at hle hmod ⊢
  omega

/-- **`htab_mod` and `htab_mod_m2`** compute remainders without dividing: the code's division by a prime of the table, and
    by two less than it, is right for every hash value. -/
theorem htabMod1_primeTab {p : PrimeEnt} (hp : p ∈ primeTab) (hash : UInt32) :
    htabMod1 hash.toNat p.prime p.inv p.shift = hash.toNat % p.prime ∧
      htabMod1 hash.toNat (p.prime - 2) p.invM2 p.shift = hash.toNat % (p.prime - 2) := by
  obtain ⟨hprime, hm2, -⟩ := primeTab_divides p hp
  have hhash : hash.toNat < 2 ^ 32 := hash.toNat_lt
  exact ⟨htabMod1_eq hprime hhash, htabMod1_eq hm2 hhash⟩

theorem prime_primeTab {p : PrimeEnt} (hp : p ∈ primeTab.take 29) : p.prime.Prime := by
  obtain hseven | ⟨hone, htwo, hthree, hno, hsqrt⟩ := primeTab_primes p hp
  · rw [hseven]
    norm_num
  · exact Division.prime_of_noDivisor hone htwo hthree hno hsqrt

/-! ### `higher_prime_index` -/

/-- A prime of the table, by its index. -/
theorem primeTab_lt {i j : Nat} {p q : PrimeEnt} (hi : primeTab[i]? = some p) (hj : primeTab[j]? = some q) (hlt : i < j) :
    p.prime < q.prime := by
  obtain ⟨hi', rfl⟩ := List.getElem?_eq_some_iff.mp hi
  obtain ⟨hj', rfl⟩ := List.getElem?_eq_some_iff.mp hj
  exact List.pairwise_iff_getElem.mp primeTab_sorted i j hi' hj' hlt

/-- The primes below `low` are too small, and those from `high` on are not. -/
structure Between (n low high : Nat) : Prop where
  le : low ≤ high
  le_length : high ≤ primeTab.length
  below : ∀ i < low, ∀ p, primeTab[i]? = some p → p.prime < n
  above : ∀ i ≥ high, ∀ p, primeTab[i]? = some p → n ≤ p.prime

/-- When the bounds meet, they are at the first prime that is not below `n`, if there is one. -/
theorem Between.leave {n low : Nat} (h : Between n low low) :
    higherPrimePass n (low, low) = .leave (primeTab.findIdx? fun p => n ≤ p.prime) := by
  rw [higherPrimePass, if_neg fun hne => hne rfl]
  cases hlow : primeTab[low]? with
  | none =>
      have hnone : primeTab.findIdx? (fun p => decide (n ≤ p.prime)) = none := by
        rw [List.findIdx?_eq_none_iff]
        intro p hp
        obtain ⟨i, hi⟩ := List.mem_iff_getElem?.mp hp
        have hi' := (List.getElem?_eq_some_iff.mp hi).1
        have hlow' := List.getElem?_eq_none_iff.mp hlow
        exact decide_eq_false (Nat.not_le_of_lt (h.below i (by omega) p hi))
      rw [hnone]
  | some p =>
      have hp := h.above low (Nat.le_refl low) p hlow
      have hsome : primeTab.findIdx? (fun p => decide (n ≤ p.prime)) = some low := by
        obtain ⟨hlow', rfl⟩ := List.getElem?_eq_some_iff.mp hlow
        rw [List.findIdx?_eq_some_iff_getElem]
        refine ⟨hlow', decide_eq_true hp, fun j hj hle => ?_⟩
        have hj' : j < primeTab.length := Nat.lt_trans hj hlow'
        exact Nat.not_le_of_lt (h.below j hj _ (List.getElem?_eq_getElem hj')) (of_decide_eq_true hle)
      rw [hsome]
      exact if_neg (Nat.not_lt_of_le hp)

/-- **The binary search** keeps the bounds, and halves what is between them. -/
theorem Between.loop {n low high fuel : Nat} (h : Between n low high) (hfuel : high - low < fuel) :
    loopRun (higherPrimePass n) fuel (low, high) = some (primeTab.findIdx? fun p => n ≤ p.prime) := by
  induction fuel generalizing low high with
  | zero => omega
  | succ fuel ih =>
      by_cases hmeet : low = high
      · subst hmeet
        exact Loop.loopRun_leave h.leave fuel
      · have hle := h.le
        have hlength := h.le_length
        have hmid : low + (high - low) / 2 < primeTab.length := by omega
        have hget := List.getElem?_eq_getElem hmid
        by_cases habove : n > primeTab[low + (high - low) / 2].prime
        · have hpass : higherPrimePass n (low, high) = .again (low + (high - low) / 2 + 1, high) := by
            rw [higherPrimePass, if_pos hmeet]
            dsimp only
            rw [hget]
            exact if_pos habove
          rw [Loop.loopRun_again hpass]
          refine ih ⟨by omega, hlength, fun i hi p hp => ?_, h.above⟩ (by omega)
          rcases Nat.lt_or_eq_of_le (Nat.le_of_lt_succ hi) with hlt | rfl
          · exact Nat.lt_trans (primeTab_lt hp hget hlt) habove
          · rw [hget] at hp
            rw [← Option.some.inj hp]
            exact habove
        · have hpass : higherPrimePass n (low, high) = .again (low, low + (high - low) / 2) := by
            rw [higherPrimePass, if_pos hmeet]
            dsimp only
            rw [hget]
            exact if_neg habove
          rw [Loop.loopRun_again hpass]
          refine ih ⟨by omega, by omega, h.below, fun i hi p hp => ?_⟩ (by omega)
          rcases Nat.lt_or_eq_of_le hi with hlt | rfl
          · exact Nat.le_trans (Nat.le_of_not_lt habove) (Nat.le_of_lt (primeTab_lt hget hp hlt))
          · rw [hget] at hp
            rw [← Option.some.inj hp]
            exact Nat.le_of_not_lt habove

/-- **`higher_prime_index`** is the first prime of the table that is not below `n`. -/
theorem higherPrimeIndex_eq (n : Nat) : higherPrimeIndex n = primeTab.findIdx? fun p => n ≤ p.prime := by
  have hbetween : Between n 0 primeTab.length := by
    refine ⟨Nat.zero_le _, Nat.le_refl _, fun i hi => absurd hi (Nat.not_lt_zero i), fun i hi p hp => ?_⟩
    exact absurd (List.getElem?_eq_some_iff.mp hp).1 (Nat.not_lt_of_le hi)
  have hloop := hbetween.loop (Nat.lt_succ_self (primeTab.length - 0))
  exact congrArg Option.join hloop

/-- A table for at most `2 ^ 31 - 1` slots is one of the first 29. -/
theorem higherPrimeIndex_spec {n : Nat} (hn : n ≤ 2147483647) :
    ∃ i p, higherPrimeIndex n = some i ∧ i < 29 ∧ primeTab[i]? = some p ∧ n ≤ p.prime := by
  have hlast : primeTab[28]? = some ⟨2147483647, 0x00000003, 0x00000007, 30⟩ := rfl
  rw [higherPrimeIndex_eq]
  obtain ⟨i, hi⟩ : ∃ i, primeTab.findIdx? (fun p => decide (n ≤ p.prime)) = some i :=
    ⟨_, List.findIdx?_eq_some_of_exists ⟨_, List.mem_of_getElem? hlast, decide_eq_true hn⟩⟩
  obtain ⟨hlt, hle, hfirst⟩ := List.findIdx?_eq_some_iff_getElem.mp hi
  refine ⟨i, primeTab[i], hi, ?_, List.getElem?_eq_getElem hlt, of_decide_eq_true hle⟩
  by_contra hge
  exact hfirst 28 (by omega) (decide_eq_true hn)

end HashTable

end GccXml
