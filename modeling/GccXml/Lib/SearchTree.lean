import Mathlib.Data.List.Basic
import Mathlib.Order.Basic

namespace GccXml

/-! # `Lib.SearchTree` — binary search trees as sorted lists

A tree is read in order as a list of entries. It is a search tree when that list is sorted by a comparison function, so
a restructuring of the tree that keeps the list keeps everything that a user of the tree can see. What a user sees is a
finite map: `Maps` says which.

The comparison returns a sign, as C functions do, and `Comparison` says what makes it an order: it is zero for equal
keys only, the signs of two keys the other way round are opposite, and the order is transitive. `ordered_node` gives
the usual invariant with smaller keys on the left. A map has at most one tree as far as the entries go
(`Maps.toList_eq`), which is what traversals are compared with. -/

/-- A comparison function in the manner of `strcmp`: negative, zero or positive. -/
structure Comparison {K : Type} (comp : K → K → Int) : Prop where
  eq_zero : ∀ {a b}, comp a b = 0 ↔ a = b
  swap : ∀ {a b}, comp a b < 0 ↔ 0 < comp b a
  trans : ∀ {a b c}, comp a b < 0 → comp b c < 0 → comp a c < 0

namespace Comparison

variable {K : Type} {comp : K → K → Int} {a b : K}

theorem self (h : Comparison comp) (a : K) : comp a a = 0 := h.eq_zero.mpr rfl

theorem irrefl (h : Comparison comp) : ¬ comp a a < 0 := by
  rw [h.self]
  exact Int.lt_irrefl 0

theorem ne (h : Comparison comp) (hlt : comp a b < 0) : a ≠ b := by
  rintro rfl
  exact h.irrefl hlt

theorem asymm (h : Comparison comp) (hlt : comp a b < 0) : ¬ comp b a < 0 :=
  fun hlt' => h.irrefl (h.trans hlt hlt')

/-- Keys that are compared by a number that tells them apart. -/
theorem of_injective {address : K → Nat} (hinj : Function.Injective address) :
    Comparison fun a b => if address a < address b then -1 else if address a > address b then 1 else 0 where
  eq_zero {a b} := by
    constructor
    · intro h
      apply hinj
      split_ifs at h <;> omega
    · rintro rfl
      simp
  swap {a b} := by split_ifs <;> omega
  trans {a b c} hab hbc := by
    split_ifs at hab hbc ⊢ <;> omega

end Comparison

/-- A binary tree with an entry at each node. -/
inductive SearchTree (K V : Type) where
  | nil
  | node (left : SearchTree K V) (key : K) (value : V) (right : SearchTree K V)
  deriving DecidableEq, Repr

namespace SearchTree

variable {K V : Type} {comp : K → K → Int}

/-- The entries in order. -/
def toList : SearchTree K V → List (K × V)
  | .nil => []
  | .node left key value right => left.toList ++ (key, value) :: right.toList

/-- Whether there is no node. -/
def isNil : SearchTree K V → Bool
  | .nil => true
  | .node .. => false

@[simp] theorem toList_nil : (nil : SearchTree K V).toList = [] := rfl

@[simp] theorem toList_node (l : SearchTree K V) (k : K) (v : V) (r : SearchTree K V) :
    (node l k v r).toList = l.toList ++ (k, v) :: r.toList := rfl

theorem eq_nil_of_toList {t : SearchTree K V} (h : t.toList = []) : t = nil := by
  cases t with
  | nil => rfl
  | node l k v r => simp at h

theorem eq_nil_of_isNil {t : SearchTree K V} (h : t.isNil = true) : t = nil := by
  cases t with
  | nil => rfl
  | node l k v r => cases h

/-! ## Search trees -/

/-- The entries are sorted by their keys, and no key is there twice. -/
def Ordered (comp : K → K → Int) (t : SearchTree K V) : Prop := t.toList.Pairwise fun e e' => comp e.1 e'.1 < 0

theorem ordered_nil : (nil : SearchTree K V).Ordered comp := List.Pairwise.nil

/-- **The usual invariant.** Left of a node are smaller keys, right of it are greater ones. -/
theorem ordered_node (hcomp : Comparison comp) {l r : SearchTree K V} {k : K} {v : V} :
    (node l k v r).Ordered comp ↔ l.Ordered comp ∧ r.Ordered comp ∧ (∀ e ∈ l.toList, comp e.1 k < 0) ∧
      ∀ e ∈ r.toList, comp k e.1 < 0 := by
  rw [Ordered, toList_node, List.pairwise_append, List.pairwise_cons]
  constructor
  · rintro ⟨hl, ⟨hkr, hr⟩, hcross⟩
    exact ⟨hl, hr, fun e he => hcross e he (k, v) List.mem_cons_self, hkr⟩
  · rintro ⟨hl, hr, hlk, hkr⟩
    refine ⟨hl, ⟨hkr, hr⟩, fun e he e' he' => ?_⟩
    rcases List.mem_cons.mp he' with rfl | he'
    · exact hlk e he
    · exact hcomp.trans (hlk e he) (hkr e' he')

/-- The tree is a search tree for the finite map `m`. -/
structure Maps (comp : K → K → Int) (t : SearchTree K V) (m : K → Option V) : Prop where
  ordered : t.Ordered comp
  mem : ∀ {k v}, (k, v) ∈ t.toList ↔ m k = some v

/-- A tree with the same entries in the same order is one for the same map. -/
theorem Maps.congr {t t' : SearchTree K V} {m : K → Option V} (h : t.Maps comp m) (htoList : t'.toList = t.toList) :
    t'.Maps comp m := by
  refine ⟨?_, ?_⟩
  · rw [Ordered, htoList]
    exact h.ordered
  · intro k v
    rw [htoList]
    exact h.mem

theorem maps_nil : (nil : SearchTree K V).Maps comp fun _ => none := by
  refine ⟨ordered_nil, ?_⟩
  intro k v
  simp

section

variable {t l r : SearchTree K V} {m : K → Option V} {k : K} {v : V}

theorem Maps.root (h : (node l k v r).Maps comp m) : m k = some v := h.mem.mp (by simp)

theorem Maps.eq_none_iff (h : t.Maps comp m) {key : K} : m key = none ↔ ∀ e ∈ t.toList, e.1 ≠ key := by
  constructor
  · rintro hnone ⟨k, v⟩ he rfl
    cases hnone.symm.trans (h.mem.mp he)
  · intro hno
    by_contra hsome
    obtain ⟨v, hv⟩ := Option.ne_none_iff_exists'.mp hsome
    exact hno (key, v) (h.mem.mpr hv) rfl

theorem nodup_of_sorted (hcomp : Comparison comp) {es : List (K × V)}
    (h : es.Pairwise fun e e' => comp e.1 e'.1 < 0) : es.Nodup :=
  h.imp fun hlt heq => hcomp.ne hlt (congrArg Prod.fst heq)

/-- The entries of a map in the order of their keys: the same list for every tree of that map. -/
theorem Maps.toList_eq (hcomp : Comparison comp) (h : t.Maps comp m) {es : List (K × V)}
    (hsorted : es.Pairwise fun e e' => comp e.1 e'.1 < 0) (hmem : ∀ k v, (k, v) ∈ es ↔ m k = some v) :
    t.toList = es := by
  have hperm : t.toList.Perm es := by
    refine (List.perm_ext_iff_of_nodup (nodup_of_sorted hcomp h.ordered) (nodup_of_sorted hcomp hsorted)).mpr ?_
    rintro ⟨k, v⟩
    exact h.mem.trans (hmem k v).symm
  exact hperm.eq_of_pairwise (fun a b _ _ hab hba => absurd hba (hcomp.asymm hab)) h.ordered hsorted

/-- The first entry of a key is its only one. -/
theorem Maps.lookup_eq [DecidableEq K] (h : t.Maps comp m) (hcomp : Comparison comp) (key : K) :
    t.toList.lookup key = m key := by
  cases hvalue : m key with
  | none =>
      rw [List.lookup_eq_none_iff]
      intro e he
      simpa using (h.eq_none_iff.mp hvalue e he).symm
  | some v =>
      obtain ⟨es, es', heq, hno⟩ : ∃ es es', t.toList = es ++ (key, v) :: es' ∧ ∀ e ∈ es, e.1 ≠ key := by
        obtain ⟨es, es', heq⟩ := List.append_of_mem (h.mem.mpr hvalue)
        refine ⟨es, es', heq, fun e he => ?_⟩
        have hsorted := h.ordered
        rw [Ordered, heq, List.pairwise_append] at hsorted
        exact hcomp.ne (hsorted.2.2 e he _ List.mem_cons_self)
      rw [heq, List.lookup_append, List.lookup_eq_none_iff.mpr fun e he => by simpa using (hno e he).symm]
      simp

/-- A new key adds one entry. -/
theorem Maps.perm_insert [DecidableEq K] (hcomp : Comparison comp) (h : t.Maps comp m) {t' : SearchTree K V}
    {key : K} {value : V} (h' : t'.Maps comp fun k => if k = key then some value else m k) (hnone : m key = none) :
    t'.toList.Perm ((key, value) :: t.toList) := by
  have hnew : (key, value) ∉ t.toList := fun he => h.eq_none_iff.mp hnone _ he rfl
  refine (List.perm_ext_iff_of_nodup (nodup_of_sorted hcomp h'.ordered)
    (List.nodup_cons.mpr ⟨hnew, nodup_of_sorted hcomp h.ordered⟩)).mpr ?_
  rintro ⟨k, v⟩
  rw [h'.mem, List.mem_cons, h.mem]
  by_cases hk : k = key
  · subst hk
    simp [hnone, eq_comm]
  · simp [hk]

end

end SearchTree

end GccXml
