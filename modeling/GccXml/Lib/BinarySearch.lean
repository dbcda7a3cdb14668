import GccXml.Lib.Loop
import Mathlib.Data.List.Basic

namespace GccXml

/-! # `Lib.BinarySearch` — `bsearch`

`bsearch` narrows an array down to the elements between those that are less than the key and those that are greater. The
comparison may keep a state of its own, such as a part of the key that is computed when it is needed first. -/

namespace BinarySearch

variable {σ α : Type}

/-- Where the loop of `bsearch` is: the state of the comparison, and the part of the array that is left. -/
structure Place (σ : Type) where
  state : σ
  base : Nat
  lim : Nat

/-- One pass of the loop: look at the element in the middle. There is no result when it lies behind the array. -/
def bsearchPass (compar : σ → α → σ × Int) (array : List α) (s : Place σ) : Pass (Place σ) (Option (σ × Option Nat)) :=
  if s.lim = 0 then .leave (some (s.state, none))
  else
    match array[s.base + s.lim / 2]? with
    | none => .leave none
    | some element =>
        let (state, cmp) := compar s.state element
        if cmp = 0 then .leave (some (state, some (s.base + s.lim / 2)))
        else if cmp > 0 then .again ⟨state, s.base + s.lim / 2 + 1, (s.lim - 1) / 2⟩
        else .again ⟨state, s.base, s.lim / 2⟩

/-- `bsearch`: the state that the comparison is left in, and the index of the element that was found. -/
def bsearch (compar : σ → α → σ × Int) (state : σ) (array : List α) : Option (σ × Option Nat) :=
  (loopRun (bsearchPass compar array) (array.length + 1) ⟨state, 0, array.length⟩).join

/-- The elements come in the order of the comparison `cmp` with a key: first those that are less than the key, then those
    that are equal, then those that are greater. -/
def Ordered (cmp : α → Int) (array : List α) : Prop :=
  array.Pairwise fun a b => (cmp a < 0 → cmp b < 0) ∧ (0 < cmp b → 0 < cmp a)

/-- The comparison `compar` gives what `cmp` says, in every state in which `inv` holds, and keeps `inv`. -/
def Computes (compar : σ → α → σ × Int) (cmp : α → Int) (inv : σ → Prop) : Prop :=
  ∀ s, inv s → ∀ a, inv (compar s a).1 ∧ (compar s a).2 = cmp a

variable {compar : σ → α → σ × Int} {cmp : α → Int} {inv : σ → Prop} {array : List α}

/-- What holds in every pass: what was left out on the left is less than the key, what was left out on the right is
    greater. -/
structure Narrowed (cmp : α → Int) (inv : σ → Prop) (array : List α) (s : Place σ) : Prop where
  state : inv s.state
  inside : s.base + s.lim ≤ array.length
  left : ∀ i a, i < s.base → array[i]? = some a → 0 < cmp a
  right : ∀ i a, s.base + s.lim ≤ i → array[i]? = some a → cmp a < 0

theorem Ordered.pos {i j : Nat} {a b : α} (h : Ordered cmp array) (hij : i < j) (ha : array[i]? = some a)
    (hb : array[j]? = some b) (hpos : 0 < cmp b) : 0 < cmp a := by
  obtain ⟨hi, rfl⟩ := List.getElem?_eq_some_iff.mp ha
  obtain ⟨hj, rfl⟩ := List.getElem?_eq_some_iff.mp hb
  exact (List.pairwise_iff_getElem.mp h i j hi hj hij).2 hpos

theorem Ordered.neg {i j : Nat} {a b : α} (h : Ordered cmp array) (hij : i < j) (ha : array[i]? = some a)
    (hb : array[j]? = some b) (hneg : cmp a < 0) : cmp b < 0 := by
  obtain ⟨hi, rfl⟩ := List.getElem?_eq_some_iff.mp ha
  obtain ⟨hj, rfl⟩ := List.getElem?_eq_some_iff.mp hb
  exact (List.pairwise_iff_getElem.mp h i j hi hj hij).1 hneg

/-- **One pass** finds an element, or narrows the part that is left. -/
theorem bsearchPass_spec (hcompar : Computes compar cmp inv) (hordered : Ordered cmp array) {s : Place σ}
    (hs : Narrowed cmp inv array s) (hlim : s.lim ≠ 0) :
    (∃ state i a, bsearchPass compar array s = .leave (some (state, some i)) ∧ array[i]? = some a ∧ cmp a = 0) ∨
      ∃ s', bsearchPass compar array s = .again s' ∧ s'.lim < s.lim ∧ Narrowed cmp inv array s' := by
  have hinside := hs.inside
  have hmiddle : s.base + s.lim / 2 < array.length := by omega
  have helement : array[s.base + s.lim / 2]? = some array[s.base + s.lim / 2] := List.getElem?_eq_getElem hmiddle
  generalize array[s.base + s.lim / 2] = a at helement
  obtain ⟨hinv, hcmp⟩ := hcompar s.state hs.state a
  unfold bsearchPass
  rw [if_neg hlim, helement]
  dsimp only
  rw [hcmp]
  rcases Int.lt_trichotomy (cmp a) 0 with hneg | hzero | hpos
  · right
    rw [if_neg (by omega), if_neg (by omega)]
    refine ⟨_, rfl, by show s.lim / 2 < s.lim; omega, hinv, by show s.base + s.lim / 2 ≤ array.length; omega, hs.left, ?_⟩
    intro i b hi hb
    have hi : s.base + s.lim / 2 ≤ i := hi
    rcases Nat.lt_or_eq_of_le hi with hlt | rfl
    · exact hordered.neg hlt helement hb hneg
    · rw [helement] at hb
      cases hb
      exact hneg
  · left
    rw [if_pos hzero]
    exact ⟨_, _, a, rfl, helement, hzero⟩
  · right
    rw [if_neg (by omega), if_pos hpos]
    refine ⟨_, rfl, by show (s.lim - 1) / 2 < s.lim; omega, hinv, ?_, ?_, ?_⟩
    · show s.base + s.lim / 2 + 1 + (s.lim - 1) / 2 ≤ array.length
      omega
    · intro i b hi hb
      have hi : i < s.base + s.lim / 2 + 1 := hi
      rcases Nat.lt_or_eq_of_le (Nat.le_of_lt_succ hi) with hlt | rfl
      · exact hordered.pos hlt hb helement hpos
      · rw [helement] at hb
        cases hb
        exact hpos
    · intro i b hi hb
      have hi : s.base + s.lim / 2 + 1 + (s.lim - 1) / 2 ≤ i := hi
      exact hs.right i b (by omega) hb

/-- From a narrowed part on, the loop ends, and it finds an element that is equal to the key if there is one. -/
theorem loopRun_bsearchPass (hcompar : Computes compar cmp inv) (hordered : Ordered cmp array) {fuel : Nat}
    {s : Place σ} (hs : Narrowed cmp inv array s) (hfuel : s.lim < fuel) :
    ∃ state found, loopRun (bsearchPass compar array) fuel s = some (some (state, found)) ∧
      (found.isSome = true ↔ ∃ a ∈ array, cmp a = 0) := by
  induction fuel generalizing s with
  | zero => exact absurd hfuel (Nat.not_lt_zero _)
  | succ fuel ih =>
      by_cases hlim : s.lim = 0
      · -- nothing is left, and what was left out is not equal to the key
        have hpass : bsearchPass compar array s = .leave (some (s.state, none)) := by rw [bsearchPass, if_pos hlim]
        refine ⟨s.state, none, Loop.loopRun_leave hpass fuel, ?_⟩
        constructor
        · intro hfound
          cases hfound
        · rintro ⟨a, ha, hzero⟩
          obtain ⟨i, hi⟩ := List.mem_iff_getElem?.mp ha
          rcases Nat.lt_or_ge i s.base with hlt | hge
          · have hpos := hs.left i a hlt hi
            omega
          · have hneg := hs.right i a (by omega) hi
            omega
      · obtain ⟨state, i, a, hpass, ha, hzero⟩ | ⟨s', hpass, hlt, hs'⟩ := bsearchPass_spec hcompar hordered hs hlim
        · refine ⟨state, some i, Loop.loopRun_leave hpass fuel, ?_⟩
          exact iff_of_true rfl ⟨a, List.mem_of_getElem? ha, hzero⟩
        · rw [Loop.loopRun_again hpass]
          exact ih hs' (by omega)

/-- **`bsearch`** in an ordered array ends, and finds an element if and only if one is equal to the key. -/
theorem bsearch_spec (hcompar : Computes compar cmp inv) (hordered : Ordered cmp array) {state : σ} (hstate : inv state) :
    ∃ state' found, bsearch compar state array = some (state', found) ∧
      (found.isSome = true ↔ ∃ a ∈ array, cmp a = 0) := by
  have hstart : Narrowed cmp inv array ⟨state, 0, array.length⟩ := by
    refine ⟨hstate, Nat.le_of_eq (Nat.zero_add _), fun i a hi _ => absurd hi (Nat.not_lt_zero i), fun i a hi ha => ?_⟩
    have hi : 0 + array.length ≤ i := hi
    rw [List.getElem?_eq_none (by omega)] at ha
    cases ha
  obtain ⟨state', found, hrun, hfound⟩ := loopRun_bsearchPass hcompar hordered hstart (Nat.lt_succ_self _)
  exact ⟨state', found, by rw [bsearch, hrun, Option.join_some], hfound⟩

end BinarySearch

end GccXml
