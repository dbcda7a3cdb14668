import GccXml.Lib.Loop
import GccXml.Lib.SearchTree

namespace GccXml

/-! # `Libiberty.SplayTree` — `splay-tree.c`

Every access first brings the node of the key, or a neighbour of it, to the root. That never changes the entries nor
their order, so the tree stays the same finite map while its shape changes with each lookup. The functions are those of
`splay-tree.c`; the tree owns its nodes, and null is `nil`.

The loop of `splay_tree_splay` is a pass with a way out. `Turn` lists the shapes that a pass can meet, one constructor
for each `return` and each rotation, and is the only place where the code of a pass is unfolded. From it follow the two
facts that are needed of a pass: it keeps the entries in their order, because a rotation does, and one that goes round
again has a smaller search path in front of it, which is the measure that gives the loop its fuel.

What the callers see after splaying is `Root`: the root is the key, or nothing lies between the two. Every operation is
then a case distinction on the sign with which the caller compares the root with its key, and the theorems at the end
state each of them against the finite map that the tree stands for (`SearchTree.Maps`). -/

namespace SplayTree

open SearchTree

variable {K V : Type}

/-! ## The functions -/

/-- `splay_tree_compare_pointers`, of keys with addresses. -/
def comparePointers (address : K → Nat) (k₁ k₂ : K) : Int :=
  if address k₁ < address k₂ then -1 else if address k₁ > address k₂ then 1 else 0

/-- `rotate_left`: the left child takes the place of its parent. -/
def rotateLeft : SearchTree K V → SearchTree K V
  | .node (.node a nk nv b) pk pv c => .node a nk nv (.node b pk pv c)
  | t => t

/-- `rotate_right`: the right child takes the place of its parent. -/
def rotateRight : SearchTree K V → SearchTree K V
  | .node a pk pv (.node b nk nv c) => .node (.node a pk pv b) nk nv c
  | t => t

/-- One pass of the loop of `splay_tree_splay`, with the tree below `sp->root`. -/
def splayPass (comp : K → K → Int) (key : K) : SearchTree K V → Pass (SearchTree K V) (SearchTree K V)
  | .nil => .leave .nil
  | .node l k v r =>
      let cmp1 := comp key k
      if cmp1 = 0 then .leave (.node l k v r)
      else
        match if cmp1 < 0 then l else r with
        | .nil => .leave (.node l k v r)
        | .node cl ck _ cr =>
            let cmp2 := comp key ck
            if cmp2 = 0 ∨ (cmp2 < 0 ∧ cl.isNil) ∨ (cmp2 > 0 ∧ cr.isNil) then
              .leave (if cmp1 < 0 then rotateLeft (.node l k v r) else rotateRight (.node l k v r))
            else if cmp1 < 0 ∧ cmp2 < 0 then .again (rotateLeft (.node (rotateLeft l) k v r))
            else if cmp1 > 0 ∧ cmp2 > 0 then .again (rotateRight (.node l k v (rotateRight r)))
            else if cmp1 < 0 ∧ cmp2 > 0 then .again (rotateLeft (.node (rotateRight l) k v r))
            else .again (rotateRight (.node l k v (rotateLeft r)))

/-- The nodes that a search for `key` comes by. -/
def pathLength (comp : K → K → Int) (key : K) : SearchTree K V → Nat
  | .nil => 0
  | .node l k _ r =>
      if comp key k = 0 then 1
      else if comp key k < 0 then pathLength comp key l + 1
      else pathLength comp key r + 1

/-- `splay_tree_splay`. The length of the search path bounds the loop: see `result_splay`. -/
def splay (comp : K → K → Int) (t : SearchTree K V) (key : K) : SearchTree K V :=
  (loopRun (splayPass comp key) (2 * pathLength comp key t + 2) t).getD t

/-- `splay_tree_insert`; the tree that is returned has the new node at its root. -/
def insert (comp : K → K → Int) (t : SearchTree K V) (key : K) (value : V) : SearchTree K V :=
  match splay comp t key with
  | .nil => .node .nil key value .nil
  | .node l k v r =>
      let comparison := comp k key
      if comparison = 0 then .node l k value r
      else if comparison < 0 then .node (.node l k v .nil) key value r
      else .node l key value (.node .nil k v r)

/-- Hang `t` off the right-most leaf of a tree. -/
def hangRight (t : SearchTree K V) : SearchTree K V → SearchTree K V
  | .nil => t
  | .node l k v r => .node l k v (hangRight t r)

/-- `splay_tree_remove`. -/
def remove (comp : K → K → Int) (t : SearchTree K V) (key : K) : SearchTree K V :=
  match splay comp t key with
  | .nil => .nil
  | .node l k v r =>
      if comp k key = 0 then
        match l with
        | .nil => r
        | .node .. => if r.isNil then l else hangRight r l
      else .node l k v r

/-- `splay_tree_lookup`, with the tree it leaves and the node it returns. -/
def lookup (comp : K → K → Int) (t : SearchTree K V) (key : K) : SearchTree K V × Option (K × V) :=
  match splay comp t key with
  | .nil => (.nil, none)
  | .node l k v r => (.node l k v r, if comp k key = 0 then some (k, v) else none)

/-- `splay_tree_max`. -/
def max : SearchTree K V → Option (K × V)
  | .nil => none
  | .node _ k v .nil => some (k, v)
  | .node _ _ _ r => max r

/-- `splay_tree_min`. -/
def min : SearchTree K V → Option (K × V)
  | .nil => none
  | .node .nil k v _ => some (k, v)
  | .node l _ _ _ => min l

/-- `splay_tree_predecessor`, with the tree it leaves and the node it returns. -/
def predecessor (comp : K → K → Int) (t : SearchTree K V) (key : K) : SearchTree K V × Option (K × V) :=
  match splay comp t key with
  | .nil => (.nil, none)
  | .node l k v r => (.node l k v r, if comp k key < 0 then some (k, v) else max l)

/-- `splay_tree_successor`, with the tree it leaves and the node it returns. -/
def successor (comp : K → K → Int) (t : SearchTree K V) (key : K) : SearchTree K V × Option (K × V) :=
  match splay comp t key with
  | .nil => (.nil, none)
  | .node l k v r => (.node l k v r, if comp k key > 0 then some (k, v) else min r)

/-- `splay_tree_foreach`: `fn` sees the nodes in order and changes a state, until it returns a number that is not
    zero. -/
def foreach {σ : Type} (fn : K × V → σ → σ × Int) : SearchTree K V → σ → σ × Int
  | .nil, s => (s, 0)
  | .node l k v r, s =>
      let (s, val) := foreach fn l s
      if val ≠ 0 then (s, val)
      else
        let (s, val) := fn (k, v) s
        if val ≠ 0 then (s, val) else foreach fn r s

theorem comparePointers_comparison {address : K → Nat} (hinj : Function.Injective address) :
    Comparison (comparePointers address) := Comparison.of_injective hinj

/-! ## One pass -/

section

variable {comp : K → K → Int} {key : K}

@[simp] theorem toList_rotateLeft (t : SearchTree K V) : (rotateLeft t).toList = t.toList := by
  unfold rotateLeft
  split
  · simp
  · rfl

@[simp] theorem toList_rotateRight (t : SearchTree K V) : (rotateRight t).toList = t.toList := by
  unfold rotateRight
  split
  · simp
  · rfl

/-- Whether the search for `key` leaves the root and its child on the same side. -/
def sameSide (comp : K → K → Int) (key : K) : SearchTree K V → Bool
  | .nil => false
  | .node l k _ r =>
      match if comp key k < 0 then l else r with
      | .nil => false
      | .node _ ck _ _ => (comp key k < 0) = (comp key ck < 0)

/-- What a pass lowers. Two steps to the same side may keep the length of the path, but they are followed by two steps
    to different sides, and those shorten it. -/
def measure (comp : K → K → Int) (key : K) (t : SearchTree K V) : Nat :=
  2 * pathLength comp key t + if sameSide comp key t then 1 else 0

/-- **The root is the key or next to it.** No entry lies between the key and the root. -/
def Splayed (comp : K → K → Int) (key : K) : SearchTree K V → Prop
  | .nil => True
  | .node l k _ r =>
      (comp key k ≤ 0 → ∀ e ∈ l.toList, comp e.1 key < 0) ∧ (0 ≤ comp key k → ∀ e ∈ r.toList, comp key e.1 < 0)

/-! ### The search path -/

section

variable {l r : SearchTree K V} {k : K} {v : V}

theorem pathLength_eq (h : comp key k = 0) : pathLength comp key (node l k v r) = 1 := if_pos h

theorem pathLength_lt (h : comp key k < 0) :
    pathLength comp key (node l k v r) = pathLength comp key l + 1 := by
  rw [pathLength, if_neg (Int.ne_of_lt h), if_pos h]

theorem pathLength_gt (h : 0 < comp key k) :
    pathLength comp key (node l k v r) = pathLength comp key r + 1 := by
  rw [pathLength, if_neg (Int.ne_of_gt h), if_neg (by omega)]

theorem le_measure (t : SearchTree K V) : 2 * pathLength comp key t ≤ measure comp key t := Nat.le_add_right _ _

theorem measure_le (t : SearchTree K V) : measure comp key t ≤ 2 * pathLength comp key t + 1 := by
  unfold measure
  split_ifs <;> omega

end

/-- Twice to the left. -/
theorem measure_left_left {ga gb cr r : SearchTree K V} {g c n : K} {gv cv nv : V} (hn : comp key n < 0)
    (hc : comp key c < 0) :
    measure comp key (node ga g gv (node (node gb c cv cr) n nv r)) <
      measure comp key (node (node (node ga g gv gb) c cv cr) n nv r) := by
  have hsame : sameSide comp key (node (node (node ga g gv gb) c cv cr) n nv r) = true := by simp [sameSide, hn, hc]
  unfold measure
  rw [hsame, pathLength_lt hn, pathLength_lt hc]
  obtain hg | hg | hg := Int.lt_trichotomy (comp key g) 0
  · rw [pathLength_lt hg, pathLength_lt hg]
    split_ifs <;> omega
  · rw [pathLength_eq hg, pathLength_eq hg]
    split_ifs <;> omega
  · have hside : sameSide comp key (node ga g gv (node (node gb c cv cr) n nv r)) = false := by
      simp [sameSide, Int.not_lt.mpr (Int.le_of_lt hg), hn]
    rw [hside, pathLength_gt hg, pathLength_gt hg, pathLength_lt hn, pathLength_lt hc]
    simp

/-- Twice to the right. -/
theorem measure_right_right {cl ga gb l : SearchTree K V} {g c n : K} {gv cv nv : V} (hn : 0 < comp key n)
    (hc : 0 < comp key c) :
    measure comp key (node (node l n nv (node cl c cv ga)) g gv gb) <
      measure comp key (node l n nv (node cl c cv (node ga g gv gb))) := by
  have hn' := Int.not_lt.mpr (Int.le_of_lt hn)
  have hc' := Int.not_lt.mpr (Int.le_of_lt hc)
  have hsame : sameSide comp key (node l n nv (node cl c cv (node ga g gv gb))) = true := by simp [sameSide, hn', hc']
  unfold measure
  rw [hsame, pathLength_gt hn, pathLength_gt hc]
  obtain hg | hg | hg := Int.lt_trichotomy (comp key g) 0
  · have hside : sameSide comp key (node (node l n nv (node cl c cv ga)) g gv gb) = false := by
      simp [sameSide, hg, hn']
    rw [hside, pathLength_lt hg, pathLength_lt hg, pathLength_gt hn, pathLength_gt hc]
    simp
  · rw [pathLength_eq hg, pathLength_eq hg]
    split_ifs <;> omega
  · rw [pathLength_gt hg, pathLength_gt hg]
    split_ifs <;> omega

/-- Once to each side: left first. -/
theorem measure_left_right {cl ga gb r : SearchTree K V} {g c n : K} {gv cv nv : V} (hn : comp key n < 0)
    (hc : 0 < comp key c) :
    measure comp key (node (node cl c cv ga) g gv (node gb n nv r)) <
      measure comp key (node (node cl c cv (node ga g gv gb)) n nv r) := by
  refine Nat.lt_of_lt_of_le (Nat.lt_succ_of_le (measure_le _)) (Nat.le_trans ?_ (le_measure _))
  rw [pathLength_lt hn, pathLength_gt hc]
  obtain hg | hg | hg := Int.lt_trichotomy (comp key g) 0
  · rw [pathLength_lt hg, pathLength_lt hg, pathLength_gt hc]
    omega
  · rw [pathLength_eq hg, pathLength_eq hg]
    omega
  · rw [pathLength_gt hg, pathLength_gt hg, pathLength_lt hn]
    omega

/-- Once to each side: right first. -/
theorem measure_right_left {ga gb cr l : SearchTree K V} {g c n : K} {gv cv nv : V} (hn : 0 < comp key n)
    (hc : comp key c < 0) :
    measure comp key (node (node l n nv ga) g gv (node gb c cv cr)) <
      measure comp key (node l n nv (node (node ga g gv gb) c cv cr)) := by
  refine Nat.lt_of_lt_of_le (Nat.lt_succ_of_le (measure_le _)) (Nat.le_trans ?_ (le_measure _))
  rw [pathLength_gt hn, pathLength_lt hc]
  obtain hg | hg | hg := Int.lt_trichotomy (comp key g) 0
  · rw [pathLength_lt hg, pathLength_lt hg, pathLength_gt hn]
    omega
  · rw [pathLength_eq hg, pathLength_eq hg]
    omega
  · rw [pathLength_gt hg, pathLength_gt hg, pathLength_lt hc]
    omega

/-! ### The cases of a pass -/

/-- What the loop may leave after one rotation: the child is the key, or there is no child where the key would be. -/
def Stops (comp : K → K → Int) (key c : K) (cl cr : SearchTree K V) : Prop :=
  comp key c = 0 ∨ (comp key c < 0 ∧ cl = nil) ∨ (0 < comp key c ∧ cr = nil)

/-- **What one pass does**, by the shape of the tree at the root. -/
inductive Turn (comp : K → K → Int) (key : K) : SearchTree K V → Pass (SearchTree K V) (SearchTree K V) → Prop
  | empty : Turn comp key nil (.leave nil)
  | found {l r : SearchTree K V} {n : K} {nv : V} :
      comp key n = 0 → Turn comp key (node l n nv r) (.leave (node l n nv r))
  | noLeft {r : SearchTree K V} {n : K} {nv : V} :
      comp key n < 0 → Turn comp key (node nil n nv r) (.leave (node nil n nv r))
  | noRight {l : SearchTree K V} {n : K} {nv : V} :
      0 < comp key n → Turn comp key (node l n nv nil) (.leave (node l n nv nil))
  | left {cl cr r : SearchTree K V} {c n : K} {cv nv : V} : comp key n < 0 → Stops comp key c cl cr →
      Turn comp key (node (node cl c cv cr) n nv r) (.leave (node cl c cv (node cr n nv r)))
  | right {cl cr l : SearchTree K V} {c n : K} {cv nv : V} : 0 < comp key n → Stops comp key c cl cr →
      Turn comp key (node l n nv (node cl c cv cr)) (.leave (node (node l n nv cl) c cv cr))
  | leftLeft {ga gb cr r : SearchTree K V} {g c n : K} {gv cv nv : V} : comp key n < 0 → comp key c < 0 →
      Turn comp key (node (node (node ga g gv gb) c cv cr) n nv r)
        (.again (node ga g gv (node (node gb c cv cr) n nv r)))
  | leftRight {cl ga gb r : SearchTree K V} {g c n : K} {gv cv nv : V} : comp key n < 0 → 0 < comp key c →
      Turn comp key (node (node cl c cv (node ga g gv gb)) n nv r)
        (.again (node (node cl c cv ga) g gv (node gb n nv r)))
  | rightLeft {ga gb cr l : SearchTree K V} {g c n : K} {gv cv nv : V} : 0 < comp key n → comp key c < 0 →
      Turn comp key (node l n nv (node (node ga g gv gb) c cv cr))
        (.again (node (node l n nv ga) g gv (node gb c cv cr)))
  | rightRight {cl ga gb l : SearchTree K V} {g c n : K} {gv cv nv : V} : 0 < comp key n → 0 < comp key c →
      Turn comp key (node l n nv (node cl c cv (node ga g gv gb)))
        (.again (node (node l n nv (node cl c cv ga)) g gv gb))

/-- The key is to the left of the root. -/
theorem turn_of_lt {l r : SearchTree K V} {n : K} {nv : V} (hn : comp key n < 0) :
    Turn comp key (node l n nv r) (splayPass comp key (node l n nv r)) := by
  unfold splayPass
  simp only [if_neg (Int.ne_of_lt hn), if_pos hn]
  cases l with
  | nil => exact .noLeft hn
  | node cl c cv cr =>
      dsimp only
      obtain hc | hc | hc := Int.lt_trichotomy (comp key c) 0
      · cases cl with
        | nil =>
            rw [if_pos (Or.inr (Or.inl ⟨hc, rfl⟩))]
            exact .left hn (Or.inr (Or.inl ⟨hc, rfl⟩))
        | node ga g gv gb =>
            rw [if_neg (by simp [isNil]; omega), if_pos ⟨hn, hc⟩]
            exact .leftLeft hn hc
      · rw [if_pos (Or.inl hc)]
        exact .left hn (Or.inl hc)
      · cases cr with
        | nil =>
            rw [if_pos (Or.inr (Or.inr ⟨hc, rfl⟩))]
            exact .left hn (Or.inr (Or.inr ⟨hc, rfl⟩))
        | node ga g gv gb =>
            rw [if_neg (by simp [isNil]; omega), if_neg (by omega), if_neg (by omega), if_pos ⟨hn, hc⟩]
            exact .leftRight hn hc

/-- The key is to the right of the root. -/
theorem turn_of_gt {l r : SearchTree K V} {n : K} {nv : V} (hn : 0 < comp key n) :
    Turn comp key (node l n nv r) (splayPass comp key (node l n nv r)) := by
  unfold splayPass
  simp only [if_neg (Int.ne_of_gt hn), if_neg (Int.not_lt.mpr (Int.le_of_lt hn))]
  cases r with
  | nil => exact .noRight hn
  | node cl c cv cr =>
      dsimp only
      obtain hc | hc | hc := Int.lt_trichotomy (comp key c) 0
      · cases cl with
        | nil =>
            rw [if_pos (Or.inr (Or.inl ⟨hc, rfl⟩))]
            exact .right hn (Or.inr (Or.inl ⟨hc, rfl⟩))
        | node ga g gv gb =>
            rw [if_neg (by simp [isNil]; omega), if_neg (by omega), if_neg (by omega), if_neg (by omega)]
            exact .rightLeft hn hc
      · rw [if_pos (Or.inl hc)]
        exact .right hn (Or.inl hc)
      · cases cr with
        | nil =>
            rw [if_pos (Or.inr (Or.inr ⟨hc, rfl⟩))]
            exact .right hn (Or.inr (Or.inr ⟨hc, rfl⟩))
        | node ga g gv gb =>
            rw [if_neg (by simp [isNil]; omega), if_neg (by omega), if_pos ⟨hn, hc⟩]
            exact .rightRight hn hc

variable (comp key) in
theorem splayPass_turn (t : SearchTree K V) : Turn comp key t (splayPass comp key t) := by
  cases t with
  | nil => exact .empty
  | node l n nv r =>
      obtain hn | hn | hn := Int.lt_trichotomy (comp key n) 0
      · exact turn_of_lt hn
      · rw [splayPass, if_pos hn]
        exact .found hn
      · exact turn_of_gt hn

/-- **A pass that goes round again** keeps the entries and lowers the measure. -/
theorem splayPass_again {t t' : SearchTree K V} (h : splayPass comp key t = .again t') :
    t'.toList = t.toList ∧ measure comp key t' < measure comp key t := by
  have hturn := splayPass_turn comp key t
  rw [h] at hturn
  cases hturn with
  | leftLeft hn hc => exact ⟨by simp, measure_left_left hn hc⟩
  | leftRight hn hc => exact ⟨by simp, measure_left_right hn hc⟩
  | rightLeft hn hc => exact ⟨by simp, measure_right_left hn hc⟩
  | rightRight hn hc => exact ⟨by simp, measure_right_right hn hc⟩

/-- **A pass that leaves the loop** keeps the entries. -/
theorem splayPass_leave {t t' : SearchTree K V} (h : splayPass comp key t = .leave t') : t'.toList = t.toList := by
  have hturn := splayPass_turn comp key t
  rw [h] at hturn
  cases hturn with
  | empty => rfl
  | found => rfl
  | noLeft => rfl
  | noRight => rfl
  | left => simp
  | right => simp

/-- In a search tree, one rotation is enough where the loop stops. -/
theorem splayed_left (hcomp : Comparison comp) {cl cr r : SearchTree K V} {c n : K} {cv nv : V}
    (hord : (node (node cl c cv cr) n nv r).Ordered comp) (hn : comp key n < 0) (hstop : Stops comp key c cl cr) :
    Splayed comp key (node cl c cv (node cr n nv r)) := by
  obtain ⟨hl, hr, hln, hnr⟩ := (ordered_node hcomp).mp hord
  obtain ⟨-, -, hclc, hccr⟩ := (ordered_node hcomp).mp hl
  have hkr : ∀ e ∈ r.toList, comp key e.1 < 0 := fun e he => hcomp.trans hn (hnr e he)
  refine ⟨fun hle e he => ?_, fun hge e he => ?_⟩
  · rcases hstop with hc | ⟨-, rfl⟩ | ⟨hc, -⟩
    · rw [hcomp.eq_zero.mp hc]
      exact hclc e he
    · cases he
    · omega
  · rw [toList_node, List.mem_append, List.mem_cons] at he
    rcases he with he | rfl | he
    · rcases hstop with hc | ⟨hc, -⟩ | ⟨-, rfl⟩
      · rw [hcomp.eq_zero.mp hc]
        exact hccr e he
      · omega
      · cases he
    · exact hn
    · exact hkr e he

/-- The mirror image of `splayed_left`. -/
theorem splayed_right (hcomp : Comparison comp) {cl cr l : SearchTree K V} {c n : K} {cv nv : V}
    (hord : (node l n nv (node cl c cv cr)).Ordered comp) (hn : 0 < comp key n) (hstop : Stops comp key c cl cr) :
    Splayed comp key (node (node l n nv cl) c cv cr) := by
  obtain ⟨hl, hr, hln, hnr⟩ := (ordered_node hcomp).mp hord
  obtain ⟨-, -, hclc, hccr⟩ := (ordered_node hcomp).mp hr
  have hnk : comp n key < 0 := hcomp.swap.mpr hn
  have hlk : ∀ e ∈ l.toList, comp e.1 key < 0 := fun e he => hcomp.trans (hln e he) hnk
  refine ⟨fun hle e he => ?_, fun hge e he => ?_⟩
  · rw [toList_node, List.mem_append, List.mem_cons] at he
    rcases he with he | rfl | he
    · exact hlk e he
    · exact hnk
    · rcases hstop with hc | ⟨-, rfl⟩ | ⟨hc, -⟩
      · rw [hcomp.eq_zero.mp hc]
        exact hclc e he
      · cases he
      · omega
  · rcases hstop with hc | ⟨hc, -⟩ | ⟨-, rfl⟩
    · rw [hcomp.eq_zero.mp hc]
      exact hccr e he
    · omega
    · cases he

theorem splayed_of_leave (hcomp : Comparison comp) {t t' : SearchTree K V} (hord : t.Ordered comp)
    (h : splayPass comp key t = .leave t') : Splayed comp key t' := by
  have hturn := splayPass_turn comp key t
  rw [h] at hturn
  cases hturn with
  | empty => trivial
  | found hn =>
      obtain ⟨-, -, hln, hnr⟩ := (ordered_node hcomp).mp hord
      rw [hcomp.eq_zero.mp hn]
      exact ⟨fun _ => hln, fun _ => hnr⟩
  | noLeft hn =>
      refine ⟨fun _ e he => ?_, fun hge => ?_⟩
      · cases he
      · omega
  | noRight hn =>
      refine ⟨fun hle => ?_, fun _ e he => ?_⟩
      · omega
      · cases he
  | left hn hstop => exact splayed_left hcomp hord hn hstop
  | right hn hstop => exact splayed_right hcomp hord hn hstop

/-! ## The loop -/

/-- **The loop of `splay_tree_splay` ends** within the bound of `splay`, for any comparison function. -/
theorem result_splay (t : SearchTree K V) : Loop.Result (splayPass comp key) t (splay comp t key) := by
  have hfuel : measure comp key t < 2 * pathLength comp key t + 2 := Nat.lt_succ_of_le (measure_le t)
  have hpass : ∀ s s' : SearchTree K V, True → splayPass comp key s = .again s' → True ∧ measure comp key s' < measure comp key s :=
    fun _ _ _ hs => ⟨trivial, (splayPass_again hs).2⟩
  obtain ⟨t', ht'⟩ := Loop.loopRun_of_variant (fun _ => True) (measure comp key) hpass trivial hfuel
  refine ⟨_, ht'.trans ?_⟩
  rw [splay, ht', Option.getD_some]

/-- **Splaying keeps the entries and their order**, for any comparison function. -/
@[simp] theorem toList_splay (t : SearchTree K V) : (splay comp t key).toList = t.toList := by
  have hagain : ∀ s s', s.toList = t.toList → splayPass comp key s = .again s' → s'.toList = t.toList :=
    fun _ _ hs hpass => (splayPass_again hpass).1.trans hs
  have hleave : ∀ s b, s.toList = t.toList → splayPass comp key s = .leave b → b.toList = t.toList :=
    fun _ _ hs hpass => (splayPass_leave hpass).trans hs
  exact (result_splay t).invariant hagain hleave rfl

/-- **Splaying a search tree** brings the key or a neighbour of it to the root. -/
theorem splayed_splay (hcomp : Comparison comp) {t : SearchTree K V} (hord : t.Ordered comp) (key : K) :
    Splayed comp key (splay comp t key) := by
  have hagain : ∀ s s' : SearchTree K V, s.Ordered comp → splayPass comp key s = .again s' → s'.Ordered comp := by
    intro s s' hs hpass
    rw [Ordered, (splayPass_again hpass).1]
    exact hs
  exact (result_splay t).invariant hagain (fun _ _ hs hpass => splayed_of_leave hcomp hs hpass) hord

/-! ## The root after splaying -/

/-- The keys of `t` are smaller than `key`. -/
def Below (comp : K → K → Int) (key : K) (t : SearchTree K V) : Prop := ∀ e ∈ t.toList, comp e.1 key < 0

/-- The keys of `t` are greater than `key`. -/
def Above (comp : K → K → Int) (key : K) (t : SearchTree K V) : Prop := ∀ e ∈ t.toList, comp key e.1 < 0

/-- **The root and the key**, as the callers of `splay_tree_splay` compare them. The root is the key, its predecessor
    or its successor. -/
inductive Root (comp : K → K → Int) (key : K) : SearchTree K V → Prop
  | empty : Root comp key nil
  | found {l r : SearchTree K V} {v : V} : Below comp key l → Above comp key r → Root comp key (node l key v r)
  | below {l r : SearchTree K V} {k : K} {v : V} : comp k key < 0 → Below comp key l → Above comp key r →
      Root comp key (node l k v r)
  | above {l r : SearchTree K V} {k : K} {v : V} : 0 < comp k key → Below comp key l → Above comp key r →
      Root comp key (node l k v r)

theorem root_splay (hcomp : Comparison comp) {t : SearchTree K V} (hord : t.Ordered comp) (key : K) :
    Root comp key (splay comp t key) := by
  have hsplayed := splayed_splay hcomp hord key
  have hord' : (splay comp t key).Ordered comp := by
    rw [Ordered, toList_splay]
    exact hord
  generalize splay comp t key = s at hsplayed hord'
  cases s with
  | nil => exact .empty
  | node l k v r =>
      obtain ⟨hbelow, habove⟩ := hsplayed
      obtain ⟨-, -, hlk, hkr⟩ := (ordered_node hcomp).mp hord'
      obtain hk | hk | hk := Int.lt_trichotomy (comp key k) 0
      · exact .above (hcomp.swap.mp hk) (hbelow (by omega)) fun e he => hcomp.trans hk (hkr e he)
      · obtain rfl := hcomp.eq_zero.mp hk
        exact .found hlk hkr
      · have hk' : comp k key < 0 := hcomp.swap.mpr hk
        exact .below hk' (fun e he => hcomp.trans (hlk e he) hk') (habove (by omega))

/-- No key of `t` is `key`. -/
theorem Below.ne (hcomp : Comparison comp) {t : SearchTree K V} (h : Below comp key t) : ∀ e ∈ t.toList, e.1 ≠ key :=
  fun e he => hcomp.ne (h e he)

theorem Above.ne (hcomp : Comparison comp) {t : SearchTree K V} (h : Above comp key t) : ∀ e ∈ t.toList, e.1 ≠ key :=
  fun e he => (hcomp.ne (h e he)).symm

/-! ## What the operations do to the map -/

section

variable {t l r : SearchTree K V} {m : K → Option V} {k : K} {v : V}

theorem maps_splay (h : t.Maps comp m) (key : K) : (splay comp t key).Maps comp m := h.congr (toList_splay t)

/-- A key between the two sides that is not at the root is not there at all. -/
theorem eq_none_of_root (hcomp : Comparison comp) (h : (node l k v r).Maps comp m) (hk : k ≠ key)
    (hl : Below comp key l) (hr : Above comp key r) : m key = none := by
  refine h.eq_none_iff.mpr fun e he => ?_
  rw [toList_node, List.mem_append, List.mem_cons] at he
  rcases he with he | rfl | he
  · exact hl.ne hcomp e he
  · exact hk
  · exact hr.ne hcomp e he

/-- **`splay_tree_lookup`** returns the node of the key. -/
theorem lookup_spec (hcomp : Comparison comp) (h : t.Maps comp m) (key : K) :
    (lookup comp t key).1.Maps comp m ∧ (lookup comp t key).2 = (m key).map fun v => (key, v) := by
  have hmaps := maps_splay h key
  have hroot := root_splay hcomp h.ordered key
  unfold lookup
  generalize splay comp t key = s at hmaps hroot
  cases hroot with
  | empty =>
      have hnone : m key = none := hmaps.eq_none_iff.mpr (by simp)
      exact ⟨hmaps, by rw [hnone, Option.map_none]⟩
  | found =>
      refine ⟨hmaps, ?_⟩
      rw [hmaps.root, Option.map_some]
      exact if_pos (hcomp.self key)
  | below hk hl hr =>
      refine ⟨hmaps, ?_⟩
      rw [eq_none_of_root hcomp hmaps (hcomp.ne hk) hl hr, Option.map_none]
      exact if_neg (Int.ne_of_lt hk)
  | above hk hl hr =>
      refine ⟨hmaps, ?_⟩
      have hne : _ ≠ key := (hcomp.ne (hcomp.swap.mpr hk)).symm
      rw [eq_none_of_root hcomp hmaps hne hl hr, Option.map_none]
      exact if_neg (Int.ne_of_gt hk)

/-- The two sides of a key, put together with the key between them. -/
theorem maps_node (hcomp : Comparison comp) [DecidableEq K] (h : t.Maps comp m) (hl : Below comp key l)
    (hr : Above comp key r) (hlord : l.Ordered comp) (hrord : r.Ordered comp)
    (hmem : ∀ e : K × V, e.1 ≠ key → (e ∈ t.toList ↔ e ∈ l.toList ∨ e ∈ r.toList)) (value : V) :
    (node l key value r).Maps comp fun k => if k = key then some value else m k := by
  refine ⟨(ordered_node hcomp).mpr ⟨hlord, hrord, hl, hr⟩, fun {k v} => ?_⟩
  rw [toList_node, List.mem_append, List.mem_cons]
  by_cases hk : k = key
  · subst hk
    rw [if_pos rfl]
    constructor
    · rintro (he | he | he)
      · exact absurd rfl (hl.ne hcomp _ he)
      · cases he
        rfl
      · exact absurd rfl (hr.ne hcomp _ he)
    · intro hv
      cases hv
      exact Or.inr (Or.inl rfl)
  · rw [if_neg hk, ← h.mem, hmem _ hk]
    constructor
    · rintro (he | he | he)
      · exact Or.inl he
      · exact absurd (congrArg Prod.fst he) hk
      · exact Or.inr he
    · rintro (he | he)
      · exact Or.inl he
      · exact Or.inr (Or.inr he)

/-- The two sides of a key, put together without it. -/
theorem maps_join (hcomp : Comparison comp) [DecidableEq K] (h : (node l key v r).Maps comp m)
    (ht : t.toList = l.toList ++ r.toList) : t.Maps comp fun k => if k = key then none else m k := by
  obtain ⟨hlord, hrord, hl, hr⟩ := (ordered_node hcomp).mp h.ordered
  refine ⟨?_, fun {k v} => ?_⟩
  · rw [Ordered, ht, List.pairwise_append]
    exact ⟨hlord, hrord, fun e he e' he' => hcomp.trans (hl e he) (hr e' he')⟩
  · rw [ht, List.mem_append]
    by_cases hk : k = key
    · subst hk
      rw [if_pos rfl]
      refine iff_of_false ?_ (by simp)
      rintro (he | he)
      · exact hcomp.irrefl (hl _ he)
      · exact hcomp.irrefl (hr _ he)
    · rw [if_neg hk, ← h.mem, toList_node, List.mem_append, List.mem_cons]
      constructor
      · rintro (he | he)
        · exact Or.inl he
        · exact Or.inr (Or.inr he)
      · rintro (he | he | he)
        · exact Or.inl he
        · exact absurd (congrArg Prod.fst he) hk
        · exact Or.inr he

/-- **`splay_tree_insert`** sets the value of the key and returns the node at the root. -/
theorem insert_spec (hcomp : Comparison comp) [DecidableEq K] (h : t.Maps comp m) (key : K) (value : V) :
    (insert comp t key value).Maps comp (fun k => if k = key then some value else m k) ∧
      ∃ l r, insert comp t key value = node l key value r := by
  have hmaps := maps_splay h key
  have hroot := root_splay hcomp h.ordered key
  unfold insert
  generalize splay comp t key = s at hmaps hroot
  cases hroot with
  | empty =>
      have hno : ∀ e : K × V, e ∈ (nil : SearchTree K V).toList → False := by simp
      refine ⟨maps_node hcomp hmaps ?_ ?_ ordered_nil ordered_nil (by simp) value, nil, nil, rfl⟩
      · exact fun e he => (hno e he).elim
      · exact fun e he => (hno e he).elim
  | @found l r v hl hr =>
      obtain ⟨hlord, hrord, -, -⟩ := (ordered_node hcomp).mp hmaps.ordered
      simp only [if_pos (hcomp.self key)]
      refine ⟨maps_node hcomp hmaps hl hr hlord hrord (fun e he => ?_) value, l, r, rfl⟩
      have hne : e ≠ (key, v) := fun heq => he (congrArg Prod.fst heq)
      simp [hne]
  | @below l r k v hk hl hr =>
      obtain ⟨hlord, hrord, hlk, -⟩ := (ordered_node hcomp).mp hmaps.ordered
      simp only [if_neg (Int.ne_of_lt hk), if_pos hk]
      refine ⟨maps_node hcomp hmaps ?_ hr ?_ hrord (fun e he => ?_) value, node l k v nil, r, rfl⟩
      · intro e he
        rw [toList_node, List.mem_append, List.mem_cons] at he
        rcases he with he | rfl | he
        · exact hl e he
        · exact hk
        · cases he
      · exact (ordered_node hcomp).mpr ⟨hlord, ordered_nil, hlk, fun e he => by cases he⟩
      · simp [or_assoc]
  | @above l r k v hk hl hr =>
      obtain ⟨hlord, hrord, -, hkr⟩ := (ordered_node hcomp).mp hmaps.ordered
      simp only [if_neg (Int.ne_of_gt hk), if_neg (Int.not_lt.mpr (Int.le_of_lt hk))]
      refine ⟨maps_node hcomp hmaps hl ?_ hlord ?_ (fun e he => ?_) value, l, node nil k v r, rfl⟩
      · intro e he
        rw [toList_node, List.mem_append, List.mem_cons] at he
        rcases he with he | rfl | he
        · cases he
        · exact hcomp.swap.mpr hk
        · exact hr e he
      · exact (ordered_node hcomp).mpr ⟨ordered_nil, hrord, (fun e he => by cases he), hkr⟩
      · simp

/-- The right subtree is hung off the right-most leaf. -/
theorem toList_hangRight (t u : SearchTree K V) : (hangRight u t).toList = t.toList ++ u.toList := by
  induction t with
  | nil => rfl
  | node l k v r _ ih => rw [hangRight, toList_node, ih, toList_node, List.append_assoc, List.cons_append]

/-- **`splay_tree_remove`** takes the key away. -/
theorem remove_spec (hcomp : Comparison comp) [DecidableEq K] (h : t.Maps comp m) (key : K) :
    (remove comp t key).Maps comp fun k => if k = key then none else m k := by
  have hmaps := maps_splay h key
  have hroot := root_splay hcomp h.ordered key
  have habsent : ∀ {s : SearchTree K V}, s.Maps comp m → m key = none →
      s.Maps comp fun k => if k = key then none else m k := by
    intro s hs hnone
    refine ⟨hs.ordered, fun {k v} => ?_⟩
    by_cases hk : k = key
    · rw [if_pos hk, hs.mem, hk, hnone]
    · rw [if_neg hk, hs.mem]
  unfold remove
  generalize splay comp t key = s at hmaps hroot
  cases hroot with
  | empty => exact habsent hmaps (hmaps.eq_none_iff.mpr (by simp))
  | @found l r v hl hr =>
      simp only [if_pos (hcomp.self key)]
      refine maps_join hcomp hmaps ?_
      cases l with
      | nil => rfl
      | node ll lk lv lr =>
          dsimp only
          split
          · rename_i hnil
            rw [eq_nil_of_isNil hnil, toList_nil, List.append_nil]
          · exact toList_hangRight _ r
  | below hk hl hr =>
      simp only [if_neg (Int.ne_of_lt hk)]
      exact habsent hmaps (eq_none_of_root hcomp hmaps (hcomp.ne hk) hl hr)
  | above hk hl hr =>
      simp only [if_neg (Int.ne_of_gt hk)]
      exact habsent hmaps (eq_none_of_root hcomp hmaps (hcomp.ne (hcomp.swap.mpr hk)).symm hl hr)

theorem max_eq (t : SearchTree K V) : max t = t.toList.getLast? := by
  fun_induction max t with
  | case1 => rfl
  | case2 l k v => rw [toList_node, toList_nil, List.getLast?_concat]
  | case3 l k v r hr ih =>
      have hne : r.toList ≠ [] := fun hnil => hr (eq_nil_of_toList hnil)
      obtain ⟨es, e, he⟩ := (List.eq_nil_or_concat' r.toList).resolve_left hne
      rw [ih, toList_node, he, List.getLast?_concat, ← List.cons_append, ← List.append_assoc, List.getLast?_concat]

theorem min_eq (t : SearchTree K V) : min t = t.toList.head? := by
  fun_induction min t with
  | case1 => rfl
  | case2 k v r => rfl
  | case3 l k v r hl ih =>
      have hne : l.toList ≠ [] := fun hnil => hl (eq_nil_of_toList hnil)
      rw [ih, toList_node, List.head?_append_of_ne_nil _ hne]

/-- What a search for the nearest key on one side may answer: nothing, if no key of the map is on that side, or the
    entry with a key there that no other key there is closer than. -/
def Nearest (m : K → Option V) (side : K → Prop) (closer : K → K → Prop) : Option (K × V) → Prop
  | none => ∀ k, side k → m k = none
  | some (k, v) => m k = some v ∧ side k ∧ ∀ k', side k' → m k' ≠ none → ¬ closer k' k

/-- The greatest key of a tree that holds the part of a map on one side. -/
theorem nearest_max (hcomp : Comparison comp) {side : K → Prop} (hord : t.Ordered comp)
    (hmem : ∀ k v, (k, v) ∈ t.toList ↔ m k = some v ∧ side k) :
    Nearest m side (fun k' k => comp k k' < 0) (max t) := by
  rw [max_eq]
  obtain hnil | ⟨es, ⟨k, v⟩, htoList⟩ := List.eq_nil_or_concat' t.toList
  · rw [hnil, List.getLast?_nil]
    intro k hside
    by_contra hsome
    obtain ⟨v, hv⟩ := Option.ne_none_iff_exists'.mp hsome
    have he := (hmem k v).mpr ⟨hv, hside⟩
    rw [hnil] at he
    cases he
  · rw [htoList, List.getLast?_concat]
    obtain ⟨hv, hk⟩ := (hmem k v).mp (by simp [htoList])
    refine ⟨hv, hk, fun k' hk' hsome hlt => ?_⟩
    obtain ⟨v', hv'⟩ := Option.ne_none_iff_exists'.mp hsome
    have he := (hmem k' v').mpr ⟨hv', hk'⟩
    rw [Ordered, htoList, List.pairwise_append] at hord
    rw [htoList, List.mem_append, List.mem_singleton] at he
    rcases he with he | he
    · exact hcomp.asymm hlt (hord.2.2 _ he (k, v) List.mem_cons_self)
    · exact hcomp.ne hlt (congrArg Prod.fst he).symm

/-- The smallest key of a tree that holds the part of a map on one side. -/
theorem nearest_min (hcomp : Comparison comp) {side : K → Prop} (hord : t.Ordered comp)
    (hmem : ∀ k v, (k, v) ∈ t.toList ↔ m k = some v ∧ side k) :
    Nearest m side (fun k' k => comp k' k < 0) (min t) := by
  rw [min_eq]
  cases htoList : t.toList with
  | nil =>
      intro k hside
      by_contra hsome
      obtain ⟨v, hv⟩ := Option.ne_none_iff_exists'.mp hsome
      have he := (hmem k v).mpr ⟨hv, hside⟩
      rw [htoList] at he
      cases he
  | cons e es =>
      obtain ⟨k, v⟩ := e
      obtain ⟨hv, hk⟩ := (hmem k v).mp (by simp [htoList])
      refine ⟨hv, hk, fun k' hk' hsome hlt => ?_⟩
      obtain ⟨v', hv'⟩ := Option.ne_none_iff_exists'.mp hsome
      have he := (hmem k' v').mpr ⟨hv', hk'⟩
      rw [Ordered, htoList, List.pairwise_cons] at hord
      rw [htoList, List.mem_cons] at he
      rcases he with he | he
      · exact hcomp.ne hlt (congrArg Prod.fst he)
      · exact hcomp.asymm hlt (hord.1 _ he)

/-- The entries below the key. -/
theorem mem_below (hcomp : Comparison comp) (h : (node l k v r).Maps comp m) (hl : Below comp key l)
    (hr : Above comp key r) (k' : K) (v' : V) :
    m k' = some v' ∧ comp k' key < 0 ↔ (k', v') ∈ l.toList ∨ ((k', v') = (k, v) ∧ comp k key < 0) := by
  rw [← h.mem, toList_node, List.mem_append, List.mem_cons]
  constructor
  · rintro ⟨he | he | he, hlt⟩
    · exact Or.inl he
    · cases he
      exact Or.inr ⟨rfl, hlt⟩
    · exact absurd hlt (hcomp.asymm (hr _ he))
  · rintro (he | ⟨he, hlt⟩)
    · exact ⟨Or.inl he, hl _ he⟩
    · cases he
      exact ⟨Or.inr (Or.inl rfl), hlt⟩

/-- The entries above the key. -/
theorem mem_above (hcomp : Comparison comp) (h : (node l k v r).Maps comp m) (hl : Below comp key l)
    (hr : Above comp key r) (k' : K) (v' : V) :
    m k' = some v' ∧ comp key k' < 0 ↔ (k', v') ∈ r.toList ∨ ((k', v') = (k, v) ∧ comp key k < 0) := by
  rw [← h.mem, toList_node, List.mem_append, List.mem_cons]
  constructor
  · rintro ⟨he | he | he, hlt⟩
    · exact absurd hlt (hcomp.asymm (hl _ he))
    · cases he
      exact Or.inr ⟨rfl, hlt⟩
    · exact Or.inl he
  · rintro (he | ⟨he, hlt⟩)
    · exact ⟨Or.inr (Or.inr he), hr _ he⟩
    · cases he
      exact ⟨Or.inr (Or.inl rfl), hlt⟩

/-- **`splay_tree_predecessor`** returns the node with the greatest key below the given one. -/
theorem predecessor_spec (hcomp : Comparison comp) (h : t.Maps comp m) (key : K) :
    (predecessor comp t key).1.Maps comp m ∧
      Nearest m (fun k => comp k key < 0) (fun k' k => comp k k' < 0) (predecessor comp t key).2 := by
  have hmaps := maps_splay h key
  have hroot := root_splay hcomp h.ordered key
  unfold predecessor
  generalize splay comp t key = s at hmaps hroot
  cases hroot with
  | empty => exact ⟨hmaps, fun k _ => hmaps.eq_none_iff.mpr (by simp)⟩
  | @found l r v hl hr =>
      refine ⟨hmaps, ?_⟩
      simp only [if_neg hcomp.irrefl]
      refine nearest_max hcomp ((ordered_node hcomp).mp hmaps.ordered).1 fun k' v' => ?_
      rw [mem_below hcomp hmaps hl hr]
      simp [hcomp.irrefl]
  | @below l r k v hk hl hr =>
      obtain ⟨hlord, -, hlk, -⟩ := (ordered_node hcomp).mp hmaps.ordered
      refine ⟨hmaps, ?_⟩
      simp only [if_pos hk]
      refine nearest_max (t := node l k v nil) hcomp ?_ fun k' v' => ?_
      · exact (ordered_node hcomp).mpr ⟨hlord, ordered_nil, hlk, by simp⟩
      · rw [mem_below hcomp hmaps hl hr]
        simp [hk]
  | @above l r k v hk hl hr =>
      refine ⟨hmaps, ?_⟩
      simp only [if_neg (Int.not_lt.mpr (Int.le_of_lt hk))]
      refine nearest_max hcomp ((ordered_node hcomp).mp hmaps.ordered).1 fun k' v' => ?_
      rw [mem_below hcomp hmaps hl hr]
      simp [Int.not_lt.mpr (Int.le_of_lt hk)]

/-- **`splay_tree_successor`** returns the node with the smallest key above the given one. -/
theorem successor_spec (hcomp : Comparison comp) (h : t.Maps comp m) (key : K) :
    (successor comp t key).1.Maps comp m ∧
      Nearest m (fun k => comp key k < 0) (fun k' k => comp k' k < 0) (successor comp t key).2 := by
  have hmaps := maps_splay h key
  have hroot := root_splay hcomp h.ordered key
  unfold successor
  generalize splay comp t key = s at hmaps hroot
  cases hroot with
  | empty => exact ⟨hmaps, fun k _ => hmaps.eq_none_iff.mpr (by simp)⟩
  | @found l r v hl hr =>
      refine ⟨hmaps, ?_⟩
      simp only [hcomp.self, gt_iff_lt, Int.lt_irrefl, if_false]
      refine nearest_min hcomp ((ordered_node hcomp).mp hmaps.ordered).2.1 fun k' v' => ?_
      rw [mem_above hcomp hmaps hl hr]
      simp [hcomp.irrefl]
  | @below l r k v hk hl hr =>
      refine ⟨hmaps, ?_⟩
      simp only [gt_iff_lt, if_neg (Int.not_lt.mpr (Int.le_of_lt hk))]
      refine nearest_min hcomp ((ordered_node hcomp).mp hmaps.ordered).2.1 fun k' v' => ?_
      rw [mem_above hcomp hmaps hl hr]
      simp [hcomp.asymm hk]
  | @above l r k v hk hl hr =>
      obtain ⟨-, hrord, -, hkr⟩ := (ordered_node hcomp).mp hmaps.ordered
      refine ⟨hmaps, ?_⟩
      simp only [gt_iff_lt, if_pos hk]
      refine nearest_min (t := node nil k v r) hcomp ?_ fun k' v' => ?_
      · exact (ordered_node hcomp).mpr ⟨ordered_nil, hrord, by simp, hkr⟩
      · rw [mem_above hcomp hmaps hl hr]
        simp [hcomp.swap.mpr hk, or_comm]

/-- Hand the entries of a list to `fn`, until it returns a number that is not zero. -/
def visit {σ : Type} (fn : K × V → σ → σ × Int) : List (K × V) → σ → σ × Int
  | [], s => (s, 0)
  | e :: es, s => if (fn e s).2 ≠ 0 then fn e s else visit fn es (fn e s).1

theorem visit_append {σ : Type} (fn : K × V → σ → σ × Int) (es es' : List (K × V)) (s : σ) :
    visit fn (es ++ es') s = if (visit fn es s).2 ≠ 0 then visit fn es s else visit fn es' (visit fn es s).1 := by
  induction es generalizing s with
  | nil => simp [visit]
  | cons e es ih =>
      rw [List.cons_append, visit, visit, ih]
      by_cases hstop : (fn e s).2 = 0 <;> simp [hstop]

/-- **`splay_tree_foreach`** hands the nodes to the function in the order of their keys. -/
theorem foreach_eq {σ : Type} (fn : K × V → σ → σ × Int) (t : SearchTree K V) (s : σ) :
    foreach fn t s = visit fn t.toList s := by
  induction t generalizing s with
  | nil => rfl
  | node l k v r ihl ihr =>
      rw [foreach, toList_node, visit_append, visit, ihl]
      by_cases hl : (visit fn l.toList s).2 = 0
      · simp only [hl, ne_eq, not_true_eq_false, if_false]
        rw [ihr]
      · simp [hl]

/-- A function that never stops the traversal. -/
theorem visit_of_zero {σ : Type} {fn : K × V → σ → σ × Int} (hfn : ∀ e s, (fn e s).2 = 0) (es : List (K × V)) (s : σ) :
    visit fn es s = (es.foldl (fun s e => (fn e s).1) s, 0) := by
  induction es generalizing s with
  | nil => rfl
  | cons e es ih => rw [visit, hfn, if_neg (by decide), ih, List.foldl_cons]

end

end

end SplayTree

end GccXml
