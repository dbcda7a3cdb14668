import GccXml.Lib.NearestSearch
import GccXml.Xml.Attributes

namespace GccXml

open NearestSearch

variable {Node : Type} [DecidableEq Node] {tu : TranslationUnit Node}

/-! # `Xml.Overrides` — the methods that a virtual method overrides

`xml_print_overrides` and `xml_print_overrides_r` call each other along the polymorphic bases of a class, and stop on
a path at the first class with a method that is overridden. A path is given by the direct bases on it, each with its
place among the bases of the class before. -/

variable (tu) in
/-- The direct bases of the class `t`, with their places. -/
def directBases (t : Node) : List (Node × Nat) := (tu.baseTypes t).zipIdx

variable (tu) in
/-- **A path to an overridden method.** The classes on `path` are, one after the other, direct bases from `C` on, and
polymorphic; the method `f` that `d` overrides is in the last of them, and none of the others has such a method. -/
structure OverridePath (d C : Node) (path : List (Node × Nat)) (f : Node) : Prop where
  isPath : IsPath (directBases tu) C path
  polymorphic : ∀ e ∈ path, (tu.tree e.1).typePolymorphicP = true
  between : ∀ e ∈ path.dropLast, tu.lookForOverridesHere e.1 d = none
  found : ∃ e, path.getLast? = some e ∧ tu.lookForOverridesHere e.1 d = some f

/-! ## The bases that are visited -/

variable (tu) in
/-- The polymorphic direct bases, with their places among all of them. -/
def visitedBases (t : Node) : List (Node × Nat) :=
  (directBases tu t).filter fun e => (tu.tree e.1).typePolymorphicP

omit [DecidableEq Node] in
theorem polymorphicBases_eq (t : Node) : tu.polymorphicBases t = (visitedBases tu t).map (·.1) := by
  have hbases : tu.baseTypes t = (directBases tu t).map (·.1) := (List.zipIdx_map_fst 0 _).symm
  rw [TreeGraph.polymorphicBases, hbases, List.filter_map]
  rfl

omit [DecidableEq Node] in
theorem nodup_visitedBases (t : Node) : (visitedBases tu t).Nodup := by
  have hplaces : ((directBases tu t).map (·.2)).Nodup := by
    rw [directBases, List.zipIdx_map_snd]
    exact List.nodup_range'
  exact (List.Nodup.of_map _ hplaces).filter _

omit [DecidableEq Node] in
theorem rank_visitedBases (t : Node) : ∀ e ∈ visitedBases tu t, tu.rank e.1 < tu.rank t := by
  intro e he
  apply tu.rank_polymorphicBases
  rw [polymorphicBases_eq]
  exact List.mem_map_of_mem he

omit [DecidableEq Node] in
theorem isPath_visitedBases {C : Node} {path : List (Node × Nat)} :
    IsPath (visitedBases tu) C path ↔
      IsPath (directBases tu) C path ∧ ∀ e ∈ path, (tu.tree e.1).typePolymorphicP = true := by
  induction path generalizing C with
  | nil => simp [IsPath]
  | cons e path ih =>
      rw [IsPath, IsPath, ih, visitedBases, List.mem_filter, List.forall_mem_cons]
      tauto

omit [DecidableEq Node] in
theorem overridePath_iff {d C : Node} {path : List (Node × Nat)} {f : Node} :
    OverridePath tu d C path f ↔
      NearestPath (visitedBases tu) (fun B => tu.lookForOverridesHere B d) C path f := by
  constructor
  · rintro ⟨hpath, hpoly, hbetween, hfound⟩
    exact ⟨isPath_visitedBases.mpr ⟨hpath, hpoly⟩, hbetween, hfound⟩
  · rintro ⟨hpath, hbetween, hfound⟩
    obtain ⟨hpath, hpoly⟩ := isPath_visitedBases.mp hpath
    exact ⟨hpath, hpoly, hbetween, hfound⟩

/-! ## The search -/

omit [DecidableEq Node] in
/-- The methods that the recursion finds are the matches of the search. -/
theorem overriddenMethodsFuel_eq (d : Node) (fuel : Nat) (C : Node) :
    overriddenMethodsFuel tu d fuel C =
      (nearestPaths (visitedBases tu) (fun B => tu.lookForOverridesHere B d) fuel C).map (·.2) := by
  induction fuel generalizing C with
  | zero => rfl
  | succ fuel ih =>
      rw [overriddenMethodsFuel, nearestPaths, List.map_flatMap, polymorphicBases_eq, List.flatMap_map]
      refine List.flatMap_congr fun e _ => ?_
      cases hlook : tu.lookForOverridesHere e.1 d with
      | some f =>
          rw [nearestAlong_some hlook]
          rfl
      | none =>
          rw [nearestAlong_none hlook, List.map_map]
          exact ih e.1

/-- The number that `xml_print_overrides` returns counts the methods that it finds. -/
theorem xmlPrintOverridesFuel_found (d : Node) (fuel : Nat) (C : Node) :
    (xmlPrintOverridesFuel tu d fuel C).value.1 = (overriddenMethodsFuel tu d fuel C).length := by
  induction fuel generalizing C with
  | zero => rfl
  | succ fuel ih =>
      rw [overriddenMethodsFuel, List.length_flatMap]
      simp only [xmlPrintOverridesFuel, Trace.value_bind, Trace.value_collect, Trace.value_pure, List.map_map]
      congr 1
      refine List.map_congr_left fun base _ => ?_
      rw [Function.comp_apply, xmlPrintOverridesR]
      cases tu.lookForOverridesHere base d with
      | some f => rfl
      | none => exact ih base

/-- An index is printed for each method that has one. -/
theorem id_mem_listedIds {ns : List Node} {id : Option Node} :
    .id id ∈ listedIds tu ns ↔ ∃ n ∈ ns, answer tu n = id ∧ id ≠ none := by
  unfold listedIds
  rw [List.mem_flatMap]
  refine exists_congr fun n => and_congr_right fun _ => ?_
  unfold listedId
  cases answer tu n with
  | none =>
      refine iff_of_false (by simp) ?_
      rintro ⟨rfl, hne⟩
      exact hne rfl
  | some r =>
      constructor
      · intro h
        have hid : id = some r := by simpa using h
        rw [hid]
        exact ⟨rfl, nofun⟩
      · rintro ⟨rfl, -⟩
        exact List.mem_cons_self

/-- **The `overrides` attribute lists the nearest overridden methods.** `xml_print_overrides` ends: fuel beyond the
rank of the class changes nothing. The indices that it prints are those of the methods at the end of a path to an
overridden method, but for the methods that `xml_add_node` gives no index, and it returns the number of these paths. -/
theorem xmlPrintOverrides_nearest (tu : TranslationUnit Node) (d C : Node) :
    (∀ fuel, tu.rank C < fuel → xmlPrintOverridesFuel tu d fuel C = xmlPrintOverrides tu C d) ∧
      (∀ id, .id id ∈ (xmlPrintOverrides tu C d).value.2 ↔
        ∃ path f, OverridePath tu d C path f ∧ answer tu f = id ∧ id ≠ none) ∧
      {path | ∃ f, OverridePath tu d C path f}.Finite ∧
      (xmlPrintOverrides tu C d).value.1 = {path | ∃ f, OverridePath tu d C path f}.ncard := by
  have hfuel : tu.rank C < tu.rank C + 1 := Nat.lt_succ_self _
  refine ⟨fun fuel h => xmlPrintOverridesFuel_eq h hfuel, fun id => ?_, ?_⟩
  · have hspec := (xmlPrintOverridesFuel_spec tu d (tu.rank C + 1) C).1
    rw [xmlPrintOverrides, hspec, id_mem_listedIds, overriddenMethodsFuel_eq]
    constructor
    · rintro ⟨f, hf, hid⟩
      obtain ⟨found, hfound, rfl⟩ := List.mem_map.mp hf
      exact ⟨found.1, found.2, overridePath_iff.mpr ((mem_nearestPaths rank_visitedBases hfuel).mp hfound), hid⟩
    · rintro ⟨path, f, hpath, hid⟩
      have hfound := (mem_nearestPaths rank_visitedBases hfuel).mpr (overridePath_iff.mp hpath)
      exact ⟨f, List.mem_map.mpr ⟨_, hfound, rfl⟩, hid⟩
  · obtain ⟨hfinite, hcard⟩ := ncard_nearestPaths (fun B => tu.lookForOverridesHere B d) rank_visitedBases
      nodup_visitedBases hfuel
    simp only [overridePath_iff]
    refine ⟨hfinite, ?_⟩
    rw [hcard, xmlPrintOverrides, xmlPrintOverridesFuel_found, overriddenMethodsFuel_eq, List.length_map]

end GccXml
