import Mathlib.Data.List.Basic

namespace GccXml

/-! # `Lib.KeepFirst` — removing duplicates from a search path

A search goes through a list of places and takes the first one that has what it wants. Several entries of the list may
name the same place, and some name none. Keeping the first entry of each place changes no search, and neither does
dropping the last entry when the list is continued by one of the same place. -/

namespace KeepFirst

variable {ι κ : Type} [DecidableEq κ]

/-- Go through a list behind the entries `kept`: keep an entry that names a place, unless the place is `excluded`, was
    kept already, or is the place of `join` and the entry is the last one. -/
def keepFirst (place : ι → Option κ) (excluded : List κ) (join : Option κ) (kept : List ι) : List ι → List ι
  | [] => kept
  | i :: l =>
      match place i with
      | none => keepFirst place excluded join kept l
      | some a =>
          if a ∉ excluded ∧ a ∉ kept.filterMap place ∧ ¬ (l = [] ∧ join = some a) then
            keepFirst place excluded join (kept ++ [i]) l
          else keepFirst place excluded join kept l

variable {place : ι → Option κ} {excluded : List κ} {join : Option κ} {kept l : List ι}

omit [DecidableEq κ] in
/-- A place that was searched before is not worth a second look. -/
theorem find?_of_mem (p : κ → Bool) {a : κ} {before : List κ} (h : a ∈ before) (after : List κ) :
    (before ++ a :: after).find? p = (before ++ after).find? p := by
  rw [List.find?_append, List.find?_append, List.find?_cons]
  cases hp : p a with
  | false => rfl
  | true =>
      have hsome : (before.find? p).isSome = true := List.find?_isSome.mpr ⟨a, h, hp⟩
      obtain ⟨b, hb⟩ := Option.isSome_iff_exists.mp hsome
      rw [hb]
      rfl

/-- **Keeping first entries changes no search**, in a list that is continued by the places `rest`. Only the excluded
    places are not searched any more. -/
theorem find?_keepFirst (p : κ → Bool) {rest : List κ} (hjoin : ∀ a, join = some a → rest.head? = some a) :
    ((keepFirst place excluded join kept l).filterMap place ++ rest).find? p =
      (kept.filterMap place ++ ((l.filterMap place).filter (· ∉ excluded) ++ rest)).find? p := by
  induction l generalizing kept with
  | nil => rfl
  | cons i l ih =>
      rw [keepFirst]
      cases hplace : place i with
      | none =>
          rw [List.filterMap_cons_none hplace]
          exact ih
      | some a =>
          dsimp only
          rw [List.filterMap_cons_some hplace, List.filter_cons]
          split
          · rename_i hkeep
            rw [ih, if_pos (by simpa using hkeep.1), List.filterMap_append, List.filterMap_cons_some hplace,
              List.filterMap_nil, List.append_assoc, List.singleton_append, List.cons_append]
          · rename_i hdrop
            rw [ih]
            by_cases hexcluded : a ∈ excluded
            · rw [if_neg (by simpa using hexcluded)]
            · rw [if_pos (by simpa using hexcluded)]
              by_cases hkept : a ∈ kept.filterMap place
              · exact (find?_of_mem p hkept _).symm
              · -- the last entry, whose place comes next again
                obtain ⟨rfl, hlast⟩ : l = [] ∧ join = some a := by
                  by_contra hno
                  exact hdrop ⟨hexcluded, hkept, hno⟩
                obtain ⟨rest', rfl⟩ : ∃ rest', rest = a :: rest' := by
                  cases rest with
                  | nil => cases hjoin a hlast
                  | cons b rest' => exact ⟨rest', by rw [Option.some.inj (hjoin a hlast)]⟩
                rw [List.filterMap_nil, List.filter_nil, List.nil_append, List.singleton_append]
                have hmem : a ∈ kept.filterMap place ++ [a] := List.mem_append_right _ List.mem_cons_self
                have htwice := find?_of_mem p hmem rest'
                rw [List.append_assoc, List.append_assoc] at htwice
                exact htwice.symm

/-- The entries that are kept are some of those that were there, in their order. -/
theorem keepFirst_sublist : (keepFirst place excluded join kept l).Sublist (kept ++ l) := by
  induction l generalizing kept with
  | nil => rw [List.append_nil]; exact List.Sublist.refl _
  | cons i l ih =>
      have hskip : (kept ++ l).Sublist (kept ++ i :: l) := (List.Sublist.refl kept).append (List.sublist_cons_self i l)
      rw [keepFirst]
      cases hplace : place i with
      | none => exact ih.trans hskip
      | some a =>
          dsimp only
          split
          · have hkeep := @ih (kept ++ [i])
            rw [List.append_assoc, List.singleton_append] at hkeep
            exact hkeep
          · exact ih.trans hskip

/-- **The places that are kept**: each of them once, and none that is excluded. -/
theorem keepFirst_places (hkept : ∀ i ∈ kept, place i ≠ none) (hnodup : (kept.filterMap place).Nodup)
    (hexcluded : ∀ a ∈ kept.filterMap place, a ∉ excluded) :
    (∀ i ∈ keepFirst place excluded join kept l, place i ≠ none) ∧
      ((keepFirst place excluded join kept l).filterMap place).Nodup ∧
      ∀ a ∈ (keepFirst place excluded join kept l).filterMap place, a ∉ excluded := by
  induction l generalizing kept with
  | nil => exact ⟨hkept, hnodup, hexcluded⟩
  | cons i l ih =>
      rw [keepFirst]
      cases hplace : place i with
      | none => exact ih hkept hnodup hexcluded
      | some a =>
          dsimp only
          split
          · rename_i hkeep
            have hplaces : (kept ++ [i]).filterMap place = kept.filterMap place ++ [a] := by
              rw [List.filterMap_append, List.filterMap_cons_some hplace, List.filterMap_nil]
            refine ih ?_ ?_ ?_
            · intro j hj
              rcases List.mem_append.mp hj with hj | hj
              · exact hkept j hj
              · rw [List.mem_singleton.mp hj, hplace]
                exact Option.some_ne_none a
            · rw [hplaces, List.nodup_append]
              refine ⟨hnodup, List.nodup_cons.mpr ⟨List.not_mem_nil, List.nodup_nil⟩, ?_⟩
              rintro b hb c hc rfl
              exact hkeep.2.1 (List.mem_singleton.mp hc ▸ hb)
            · intro b hb
              rw [hplaces, List.mem_append, List.mem_singleton] at hb
              rcases hb with hb | rfl
              · exact hexcluded b hb
              · exact hkeep.1
          · exact ih hkept hnodup hexcluded

end KeepFirst

end GccXml
