import GccXml.Libiberty.SplayTree
import Mathlib.Algebra.Order.Group.Multiset
import Mathlib.Tactic.Abel

namespace GccXml

/-! # `Libiberty.SplayRuns` — whole lives of a splay tree

A tree that starts empty and is used in any order behaves as a finite map, although every use moves its nodes about. In
the end `splay_tree_delete` frees it without recursion: it keeps the nodes that it still has to visit in two lists,
which it threads through the key fields of the nodes.

For the uses, `Call` is one call of the library and `Answer` what it has to return when the tree stands for a map.
`call_spec` gathers the results of `Libiberty.SplayTree`: the answer is right, and the tree that is left stands for the
map after the call. A sequence of calls is an induction on it, and a traversal at the end lists the map in order.

For the deletion, a state has the two lists and what was deleted and freed so far. `Deletion.Valid` is its invariant,
for the tree that was there at first: every node is in one of the lists, below a node in one of them, or freed, and
keys and values were deleted of exactly those nodes that are freed or in a list. A pass keeps it and lowers
`Deletion.size`; at the end both lists are empty, so that each node was freed once, after its key and value were
deleted. -/

namespace SplayTree

open SearchTree

variable {K V : Type}

/-! ## Uses of a tree -/

/-- A call of one of the functions of `splay-tree.c`. -/
inductive Call (K V : Type) where
  | insert (key : K) (value : V)
  | remove (key : K)
  | lookup (key : K)
  | predecessor (key : K)
  | successor (key : K)
  | max
  | min
  deriving DecidableEq

/-- The node at the root. -/
def root : SearchTree K V → Option (K × V)
  | .nil => none
  | .node _ k v _ => some (k, v)

/-- What a call does to the tree, and the node it returns. -/
def call (comp : K → K → Int) (t : SearchTree K V) : Call K V → SearchTree K V × Option (K × V)
  | .insert key value => (insert comp t key value, root (insert comp t key value))
  | .remove key => (remove comp t key, none)
  | .lookup key => lookup comp t key
  | .predecessor key => predecessor comp t key
  | .successor key => successor comp t key
  | .max => (t, max t)
  | .min => (t, min t)

/-- What a sequence of calls does to the tree, and the nodes they return. -/
def calls (comp : K → K → Int) : SearchTree K V → List (Call K V) → SearchTree K V × List (Option (K × V))
  | t, [] => (t, [])
  | t, c :: cs =>
      let (t, answer) := call comp t c
      let (t, answers) := calls comp t cs
      (t, answer :: answers)

/-! ## What they mean for a map -/

/-- The map after a call. -/
def mapAfter [DecidableEq K] (m : K → Option V) : Call K V → K → Option V
  | .insert key value => fun k => if k = key then some value else m k
  | .remove key => fun k => if k = key then none else m k
  | _ => m

/-- What a call on a map answers. -/
def Answer (comp : K → K → Int) (m : K → Option V) : Call K V → Option (K × V) → Prop
  | .insert key value, answer => answer = some (key, value)
  | .remove _, answer => answer = none
  | .lookup key, answer => answer = (m key).map fun v => (key, v)
  | .predecessor key, answer => Nearest m (fun k => comp k key < 0) (fun k' k => comp k k' < 0) answer
  | .successor key, answer => Nearest m (fun k => comp key k < 0) (fun k' k => comp k' k < 0) answer
  | .max, answer => Nearest m (fun _ => True) (fun k' k => comp k k' < 0) answer
  | .min, answer => Nearest m (fun _ => True) (fun k' k => comp k' k < 0) answer

/-- Every call of a sequence is answered as one on the map that the calls before it have made. -/
def Answers (comp : K → K → Int) [DecidableEq K] : (K → Option V) → List (Call K V) → List (Option (K × V)) → Prop
  | _, [], answers => answers = []
  | m, c :: cs, answers => ∃ answer rest, answers = answer :: rest ∧ Answer comp m c answer ∧
      Answers comp (mapAfter m c) cs rest

section

variable {comp : K → K → Int} [DecidableEq K] {m : K → Option V} {t : SearchTree K V}

/-- **One call** answers as one on the map, and leaves a tree of the map after it. -/
theorem call_spec (hcomp : Comparison comp) (h : t.Maps comp m) (c : Call K V) :
    (call comp t c).1.Maps comp (mapAfter m c) ∧ Answer comp m c (call comp t c).2 := by
  have hall : ∀ k v, (k, v) ∈ t.toList ↔ m k = some v ∧ True := fun k v => by simp [h.mem]
  cases c with
  | insert key value =>
      obtain ⟨hmaps, l, r, heq⟩ := insert_spec hcomp h key value
      exact ⟨hmaps, by rw [call, heq]; rfl⟩
  | remove key => exact ⟨remove_spec hcomp h key, rfl⟩
  | lookup key => exact lookup_spec hcomp h key
  | predecessor key => exact predecessor_spec hcomp h key
  | successor key => exact successor_spec hcomp h key
  | max => exact ⟨h, nearest_max hcomp h.ordered hall⟩
  | min => exact ⟨h, nearest_min hcomp h.ordered hall⟩

/-- **Every sequence of calls** answers as one on the map. -/
theorem calls_spec (hcomp : Comparison comp) (h : t.Maps comp m) (cs : List (Call K V)) :
    (calls comp t cs).1.Maps comp (cs.foldl mapAfter m) ∧ Answers comp m cs (calls comp t cs).2 := by
  induction cs generalizing t m with
  | nil => exact ⟨h, rfl⟩
  | cons c cs ih =>
      obtain ⟨hmaps, hanswer⟩ := call_spec hcomp h c
      obtain ⟨hmaps', hanswers⟩ := ih hmaps
      exact ⟨hmaps', _, _, rfl, hanswer, hanswers⟩

/-- **A splay tree is a finite map.** From an empty tree on, every call of every sequence is answered as one on the map
    that the calls before it have made, and a traversal of the tree they leave visits each entry of that map once, in the
    order of the keys. -/
theorem splay_tree_is_map (hcomp : Comparison comp) (cs : List (Call K V)) :
    Answers comp (fun _ => none) cs (calls comp nil cs).2 ∧
      ∃ entries : List (K × V), (entries.Pairwise fun e e' => comp e.1 e'.1 < 0) ∧
        (∀ k v, (k, v) ∈ entries ↔ cs.foldl mapAfter (fun _ => none) k = some v) ∧
        ∀ {σ : Type} (fn : K × V → σ → σ × Int) (s : σ),
          foreach fn (calls comp nil cs).1 s = visit fn entries s := by
  obtain ⟨hmaps, hanswers⟩ := calls_spec hcomp maps_nil cs
  exact ⟨hanswers, _, hmaps.ordered, fun k v => hmaps.mem, fun fn s => foreach_eq fn _ s⟩

/-- Some calls on a tree of numbers. -/
theorem splay_tree_is_map_nat :
    Answers (comparePointers id) (fun _ => none) [.insert 1 'a', .insert 2 'b', .remove 1, .lookup 2, .successor 1]
      (calls (comparePointers id) nil [.insert 1 'a', .insert 2 'b', .remove 1, .lookup 2, .successor 1]).2 :=
  (splay_tree_is_map (comparePointers_comparison Function.injective_id)
    [.insert 1 'a', .insert 2 'b', .remove 1, .lookup 2, .successor 1]).1

end

/-! ## `splay_tree_delete_helper` -/

/-- The state of the loops. The nodes of the two lists stand for their subtrees: their keys and values are deleted. -/
structure Deletion (K V : Type) where
  pending : List (SearchTree K V)
  active : List (SearchTree K V)
  /-- The nodes whose key and value were handed to `delete_key` and `delete_value`. -/
  deleted : List (K × V)
  /-- The nodes that were handed to `deallocate`. -/
  freed : List (K × V)

/-- Delete the key and the value of a child, if there is one, and put it on the pending list. -/
def Deletion.deleteChild (s : Deletion K V) : SearchTree K V → Deletion K V
  | .nil => s
  | .node l k v r => { s with deleted := s.deleted ++ [(k, v)], pending := .node l k v r :: s.pending }

/-- One pass of the inner loop, or of the outer one where the inner one has ended. -/
def deletePass (s : Deletion K V) : Pass (Deletion K V) (Option (Deletion K V)) :=
  match s.active with
  | [] => if s.pending.isEmpty then .leave (some s) else .again { s with active := s.pending, pending := [] }
  | .nil :: _ => .leave none
  | .node l k v r :: rest =>
      let s := (s.deleteChild l).deleteChild r
      .again { s with active := rest, freed := s.freed ++ [(k, v)] }

/-- The state before the loops. -/
def deleteStart (t : SearchTree K V) : Deletion K V :=
  Deletion.deleteChild { pending := [], active := [], deleted := [], freed := [] } t

/-- The nodes of the two lists, with their subtrees. -/
def Deletion.trees (s : Deletion K V) : List (SearchTree K V) := s.active ++ s.pending

/-- **The invariant of the loops**, when the tree was `t`. Every node is in one of the lists, below a node of them, or
    freed; and what was deleted is what is freed or in one of the lists. -/
structure Deletion.Valid (t : SearchTree K V) (s : Deletion K V) : Prop where
  ne_nil : ∀ u ∈ s.trees, u ≠ nil
  visited : (s.freed ++ s.trees.flatMap toList).Perm t.toList
  deleted : (s.freed ++ s.trees.filterMap root).Perm s.deleted

/-- What `deleteChild` adds, as a list without null. -/
theorem deleteChild_eq (s : Deletion K V) (u : SearchTree K V) :
    s.deleteChild u = { s with
      pending := (if u.isNil then [] else [u]) ++ s.pending, deleted := s.deleted ++ (root u).toList } := by
  cases u with
  | nil => simp [Deletion.deleteChild, root, isNil]
  | node l k v r => simp [Deletion.deleteChild, root, isNil]

theorem flatMap_toList_child (u : SearchTree K V) :
    (if u.isNil then [] else [u]).flatMap toList = u.toList := by
  cases u with
  | nil => rfl
  | node l k v r => simp [isNil]

theorem filterMap_root_child (u : SearchTree K V) :
    (if u.isNil then [] else [u]).filterMap root = (root u).toList := by
  cases u with
  | nil => rfl
  | node l k v r => rfl

theorem child_ne_nil (u : SearchTree K V) : ∀ w ∈ (if u.isNil then [] else [u]), w ≠ nil := by
  cases u with
  | nil => simp [isNil]
  | node l k v r => simp [isNil]

theorem valid_deleteStart (t : SearchTree K V) : (deleteStart t).Valid t := by
  rw [deleteStart, deleteChild_eq]
  refine ⟨?_, ?_, ?_⟩
  · simpa [Deletion.trees] using child_ne_nil t
  · simp [Deletion.trees, flatMap_toList_child]
  · simp [Deletion.trees, filterMap_root_child]

theorem Deletion.Valid.again {t : SearchTree K V} {s s' : Deletion K V} (h : s.Valid t)
    (hpass : deletePass s = .again s') : s'.Valid t := by
  obtain ⟨pending, active, deleted, freed⟩ := s
  cases active with
  | nil =>
      unfold deletePass at hpass
      dsimp only at hpass
      split at hpass
      · cases hpass
      · cases hpass
        exact ⟨by simpa [trees] using h.ne_nil, by simpa [trees] using h.visited, by simpa [trees] using h.deleted⟩
  | cons u rest =>
      cases u with
      | nil => cases hpass
      | node l k v r =>
          cases hpass
          rw [deleteChild_eq, deleteChild_eq]
          have hvisited := h.visited
          have hdeleted := h.deleted
          simp only [trees, List.cons_append, List.flatMap_cons, List.filterMap_cons, root, toList_node] at hvisited hdeleted
          refine ⟨?_, List.Perm.trans ?_ hvisited, ?_⟩
          · intro w hw
            rw [trees, List.mem_append, List.mem_append, List.mem_append] at hw
            rcases hw with hw | hw | hw | hw
            · exact h.ne_nil w (by simp [trees, hw])
            · exact child_ne_nil r w hw
            · exact child_ne_nil l w hw
            · exact h.ne_nil w (by simp [trees, hw])
          · simp only [trees, List.flatMap_append, flatMap_toList_child]
            refine Multiset.coe_eq_coe.mp ?_
            simp only [← Multiset.coe_add, ← Multiset.cons_coe, ← Multiset.singleton_add]
            abel
          · have hboth := (hdeleted.append_right (root l).toList).append_right (root r).toList
            refine List.Perm.trans ?_ hboth
            simp only [trees, List.filterMap_append, filterMap_root_child]
            refine Multiset.coe_eq_coe.mp ?_
            simp only [← Multiset.coe_add, ← Multiset.cons_coe, ← Multiset.singleton_add, Multiset.coe_nil]
            abel

/-- The number of passes that are left, at most. -/
def Deletion.size (s : Deletion K V) : Nat :=
  2 * (s.trees.flatMap toList).length + if s.active.isEmpty then 1 else 0

theorem Deletion.size_again {s s' : Deletion K V} (hpass : deletePass s = .again s') (hne : ∀ u ∈ s.trees, u ≠ nil) :
    s'.size < s.size := by
  obtain ⟨pending, active, deleted, freed⟩ := s
  cases active with
  | nil =>
      unfold deletePass at hpass
      dsimp only at hpass
      split at hpass
      · cases hpass
      · rename_i hpending
        cases hpass
        simp [size, trees, hpending]
  | cons u rest =>
      cases u with
      | nil => cases hpass
      | node l k v r =>
          cases hpass
          rw [deleteChild_eq, deleteChild_eq]
          simp only [size, trees, List.flatMap_append, flatMap_toList_child, List.length_append, List.flatMap_cons,
            toList_node, List.length_cons, List.isEmpty_cons]
          split_ifs <;> omega

/-- The roots of some trees are among their entries. -/
theorem roots_sublist (us : List (SearchTree K V)) : (us.filterMap root).Sublist (us.flatMap toList) := by
  induction us with
  | nil => exact List.Sublist.refl _
  | cons u us ih =>
      cases u with
      | nil => exact ih
      | node l k v r =>
          simp only [List.filterMap_cons, root, List.flatMap_cons, toList_node, List.append_assoc, List.cons_append]
          exact ((ih.trans (List.sublist_append_right _ _)).cons_cons (k, v)).trans (List.sublist_append_right _ _)

/-- **`splay_tree_delete`** ends, and by then every node has had its key and value deleted once and was freed once. At no
    time is a node freed whose key and value were not deleted, and nothing is ever deleted twice. -/
theorem delete_spec (t : SearchTree K V) :
    (∃ s, Loop.Result deletePass (deleteStart t) (some s) ∧ s.deleted.Perm t.toList ∧ s.freed.Perm t.toList) ∧
      ∀ s, Loop.Reaches deletePass (deleteStart t) s →
        s.freed.Subperm s.deleted ∧ s.deleted.Subperm t.toList := by
  constructor
  · have hstep : ∀ s s' : Deletion K V, s.Valid t → deletePass s = .again s' → s'.Valid t ∧ s'.size < s.size :=
      fun s s' hs hpass => ⟨hs.again hpass, Deletion.size_again hpass hs.ne_nil⟩
    obtain ⟨b, hb⟩ := Loop.loopRun_of_variant (fun s => s.Valid t) Deletion.size hstep (valid_deleteStart t)
      (Nat.lt_succ_self _)
    have hleave : ∀ (s : Deletion K V) b, s.Valid t → deletePass s = .leave b →
        ∃ s, b = some s ∧ s.Valid t ∧ s.trees = [] := by
      rintro ⟨pending, active, deleted, freed⟩ b hs hpass
      cases active with
      | nil =>
          unfold deletePass at hpass
          dsimp only at hpass
          split at hpass
          · rename_i hpending
            cases hpass
            exact ⟨_, rfl, hs, by simpa [Deletion.trees] using hpending⟩
          · cases hpass
      | cons u rest =>
          cases u with
          | nil => exact absurd rfl (hs.ne_nil nil (by simp [Deletion.trees]))
          | node l k v r => cases hpass
    obtain ⟨s, rfl, hs, hnil⟩ := Loop.Result.invariant (fun s s' hs hpass => (hstep s s' hs hpass).1) hleave ⟨_, hb⟩
      (valid_deleteStart t)
    have hvisited := hs.visited
    have hdeleted := hs.deleted
    rw [hnil] at hvisited hdeleted
    simp only [List.flatMap_nil, List.filterMap_nil, List.append_nil] at hvisited hdeleted
    exact ⟨s, ⟨_, hb⟩, hdeleted.symm.trans hvisited, hvisited⟩
  · intro s hreach
    have hs : s.Valid t := hreach.invariant (fun _ _ hs hpass => hs.again hpass) (valid_deleteStart t)
    constructor
    · exact hs.deleted.subperm_left.mp (List.sublist_append_left _ _).subperm
    · refine hs.visited.subperm_left.mp ?_
      refine hs.deleted.symm.subperm.trans ?_
      exact ((List.Sublist.refl _).append (roots_sublist _)).subperm

end SplayTree

end GccXml
