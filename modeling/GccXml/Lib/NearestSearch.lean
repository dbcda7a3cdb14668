import Mathlib.Data.Set.Card

namespace GccXml

/-! # `Lib.NearestSearch` — the first match on every path

A search along the edges of a graph looks for a match at the end of each edge and goes on from there only if there is
none. What it finds are the paths that end with a match and have none before. The graph has no cycle: every edge
lowers a rank. -/

namespace NearestSearch

variable {V L M : Type} (edges : V → List (V × L)) (look : V → Option M)

/-- The edges lead from `v` one to the next. -/
def IsPath : V → List (V × L) → Prop
  | _, [] => True
  | v, e :: path => e ∈ edges v ∧ IsPath e.1 path

/-- A path from `v` to the match `m`, with no match strictly between. -/
structure NearestPath (v : V) (path : List (V × L)) (m : M) : Prop where
  isPath : IsPath edges v path
  between : ∀ e ∈ path.dropLast, look e.1 = none
  found : ∃ e, path.getLast? = some e ∧ look e.1 = some m

/-- What is found along the edge `e`: a match at its end, or what `search` finds from there. -/
def nearestAlong (search : V → List (List (V × L) × M)) (e : V × L) : List (List (V × L) × M) :=
  match look e.1 with
  | some m => [([e], m)]
  | none => (search e.1).map fun found => (e :: found.1, found.2)

/-- The search, with `fuel` for the length of a path: the paths found and their matches, in order. -/
def nearestPaths : Nat → V → List (List (V × L) × M)
  | 0, _ => []
  | fuel + 1, v => (edges v).flatMap (nearestAlong look (nearestPaths fuel))

variable {edges look}

theorem nearestAlong_some {search : V → List (List (V × L) × M)} {e : V × L} {m : M} (h : look e.1 = some m) :
    nearestAlong look search e = [([e], m)] := by
  rw [nearestAlong, h]

theorem nearestAlong_none {search : V → List (List (V × L) × M)} {e : V × L} (h : look e.1 = none) :
    nearestAlong look search e = (search e.1).map fun found => (e :: found.1, found.2) := by
  rw [nearestAlong, h]

theorem not_nearestPath_nil {v : V} {m : M} : ¬ NearestPath edges look v [] m := by
  rintro ⟨-, -, e, he, -⟩
  cases he

/-- A path to the nearest match is an edge to it, or an edge without a match and such a path from there. -/
theorem nearestPath_cons {v : V} {e : V × L} {path : List (V × L)} {m : M} :
    NearestPath edges look v (e :: path) m ↔
      e ∈ edges v ∧ (path = [] ∧ look e.1 = some m ∨ look e.1 = none ∧ NearestPath edges look e.1 path m) := by
  cases path with
  | nil =>
      constructor
      · rintro ⟨⟨he, -⟩, -, e', hlast, hm⟩
        obtain rfl := Option.some.inj hlast
        exact ⟨he, .inl ⟨rfl, hm⟩⟩
      · rintro ⟨he, ⟨-, hm⟩ | ⟨-, hpath⟩⟩
        · exact ⟨⟨he, trivial⟩, by simp, e, rfl, hm⟩
        · exact absurd hpath not_nearestPath_nil
  | cons e' path =>
      constructor
      · rintro ⟨⟨he, hpath⟩, hbetween, hfound⟩
        rw [List.dropLast_cons_cons, List.forall_mem_cons] at hbetween
        rw [List.getLast?_cons_cons] at hfound
        exact ⟨he, .inr ⟨hbetween.1, hpath, hbetween.2, hfound⟩⟩
      · rintro ⟨he, ⟨hnil, -⟩ | ⟨hnone, hpath, hbetween, hfound⟩⟩
        · cases hnil
        · refine ⟨⟨he, hpath⟩, ?_, ?_⟩
          · rw [List.dropLast_cons_cons, List.forall_mem_cons]
            exact ⟨hnone, hbetween⟩
          · rw [List.getLast?_cons_cons]
            exact hfound

/-- **The search finds the nearest matches**, when the fuel is more than the rank. -/
theorem mem_nearestPaths {rank : V → Nat} (hrank : ∀ v, ∀ e ∈ edges v, rank e.1 < rank v) {fuel : Nat} {v : V}
    (hfuel : rank v < fuel) {path : List (V × L)} {m : M} :
    (path, m) ∈ nearestPaths edges look fuel v ↔ NearestPath edges look v path m := by
  induction fuel generalizing v path m with
  | zero => exact absurd hfuel (Nat.not_lt_zero _)
  | succ fuel ih =>
      have hedge : ∀ e ∈ edges v, rank e.1 < fuel := by
        intro e he
        have hlt := hrank v e he
        omega
      rw [nearestPaths, List.mem_flatMap]
      constructor
      · rintro ⟨e, he, hmem⟩
        -- a path ends at the first vertex that is found, else it goes on below
        cases hlook : look e.1 with
        | some m' =>
            rw [nearestAlong_some hlook] at hmem
            obtain ⟨rfl, rfl⟩ := Prod.mk.inj (List.mem_singleton.mp hmem)
            exact nearestPath_cons.mpr ⟨he, .inl ⟨rfl, hlook⟩⟩
        | none =>
            rw [nearestAlong_none hlook] at hmem
            obtain ⟨found, hfound, hsame⟩ := List.mem_map.mp hmem
            obtain ⟨rfl, rfl⟩ := Prod.mk.inj hsame
            exact nearestPath_cons.mpr ⟨he, .inr ⟨hlook, (ih (hedge e he)).mp hfound⟩⟩
      · intro h
        cases path with
        | nil => exact absurd h not_nearestPath_nil
        | cons e path =>
            obtain ⟨he, ⟨rfl, hlook⟩ | ⟨hlook, hpath⟩⟩ := nearestPath_cons.mp h
            · refine ⟨e, he, ?_⟩
              rw [nearestAlong_some hlook]
              exact List.mem_singleton_self _
            · refine ⟨e, he, ?_⟩
              rw [nearestAlong_none hlook]
              exact List.mem_map.mpr ⟨(path, m), (ih (hedge e he)).mpr hpath, rfl⟩

/-- Every path found along an edge begins with it. -/
theorem exists_cons_of_mem_nearestAlong {search : V → List (List (V × L) × M)} {e : V × L}
    {found : List (V × L) × M} (h : found ∈ nearestAlong look search e) : ∃ path, found.1 = e :: path := by
  cases hlook : look e.1 with
  | some m =>
      rw [nearestAlong_some hlook] at h
      rw [List.mem_singleton.mp h]
      exact ⟨[], rfl⟩
  | none =>
      rw [nearestAlong_none hlook] at h
      obtain ⟨found', -, rfl⟩ := List.mem_map.mp h
      exact ⟨found'.1, rfl⟩

/-- **No path is found twice**, if no edge is there twice. -/
theorem nodup_nearestPaths (hedges : ∀ v, (edges v).Nodup) (fuel : Nat) (v : V) :
    ((nearestPaths edges look fuel v).map (·.1)).Nodup := by
  induction fuel generalizing v with
  | zero => exact List.nodup_nil
  | succ fuel ih =>
      rw [nearestPaths, List.map_flatMap, List.nodup_flatMap]
      constructor
      · intro e _
        cases hlook : look e.1 with
        | some m =>
            rw [nearestAlong_some hlook]
            exact List.nodup_singleton _
        | none =>
            rw [nearestAlong_none hlook, List.map_map]
            have hcons : ((fun found : List (V × L) × M => found.1) ∘ fun found => (e :: found.1, found.2)) =
                (List.cons e) ∘ fun found : List (V × L) × M => found.1 := rfl
            rw [hcons, ← List.map_map]
            exact (ih e.1).map (List.cons_injective)
      · refine (hedges v).imp fun {e e'} hne => ?_
        -- two edges: their paths differ in the first step
        intro path hpath hpath'
        obtain ⟨found, hfound, rfl⟩ := List.mem_map.mp hpath
        obtain ⟨found', hfound', hsame⟩ := List.mem_map.mp hpath'
        obtain ⟨rest, hrest⟩ := exists_cons_of_mem_nearestAlong hfound
        obtain ⟨rest', hrest'⟩ := exists_cons_of_mem_nearestAlong hfound'
        rw [hrest, hrest'] at hsame
        exact hne (List.cons.inj hsame).1.symm

variable (look) in
/-- **The number of the paths to a nearest match** is the number of times that the search finds one. -/
theorem ncard_nearestPaths {rank : V → Nat} (hrank : ∀ v, ∀ e ∈ edges v, rank e.1 < rank v)
    (hedges : ∀ v, (edges v).Nodup) {fuel : Nat} {v : V} (hfuel : rank v < fuel) :
    {path | ∃ m, NearestPath edges look v path m}.Finite ∧
      {path | ∃ m, NearestPath edges look v path m}.ncard = (nearestPaths edges look fuel v).length := by
  classical
  have hset : {path | ∃ m, NearestPath edges look v path m} =
      ((nearestPaths edges look fuel v).map (·.1)).toFinset := by
    ext path
    simp only [Set.mem_ofPred_eq, List.coe_toFinset, List.mem_map]
    constructor
    · rintro ⟨m, hpath⟩
      exact ⟨(path, m), (mem_nearestPaths hrank hfuel).mpr hpath, rfl⟩
    · rintro ⟨found, hfound, rfl⟩
      exact ⟨found.2, (mem_nearestPaths hrank hfuel).mp hfound⟩
  rw [hset]
  refine ⟨Finset.finite_toSet _, ?_⟩
  rw [Set.ncard_coe_finset, List.toFinset_card_of_nodup (nodup_nearestPaths hedges fuel v), List.length_map]

end NearestSearch

end GccXml
