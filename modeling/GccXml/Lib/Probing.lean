import GccXml.Lib.Loop
import Mathlib.Data.Finite.Defs
import Mathlib.Data.Fintype.EquivFin
import Mathlib.Data.Int.ModEq
import Mathlib.Data.List.Nodup
import Mathlib.Logic.Function.Basic

namespace GccXml

/-! # `Lib.Probing` — open addressing

A table of slots, in which every key has a sequence of places where it is looked for. An entry lies at one of the
places of its key, and no place before it is empty: so a search may stop at the first empty place. Deleting leaves a
mark, and not an empty slot. The table represents a finite map from keys to entries.

`Placed` is the invariant, and each operation has one lemma that keeps it and says what becomes of the map: a search,
writing an entry behind no empty place, deleting, replacing. They speak of one slot that is changed (`live_set`,
`deletions_set`) and of any probe sequence, so that they hold for linear probing as well.

That an empty place is found is a matter of counting: not every slot can be taken (`exists_empty`), and the places of a
key cover the table. For double hashing they do when the step and the size have no common factor. -/

namespace Probing

/-- A slot of the table. -/
inductive Slot (E : Type) where
  | empty
  | deleted
  | entry (e : E)
  deriving DecidableEq

namespace Slot

variable {E : Type}

/-- The entry of a slot. -/
def content : Slot E → Option E
  | .entry e => some e
  | _ => none

def isDeleted : Slot E → Bool
  | .deleted => true
  | _ => false

@[simp] theorem content_entry (e : E) : (Slot.entry e).content = some e := rfl

@[simp] theorem content_empty : (Slot.empty : Slot E).content = none := rfl

@[simp] theorem content_deleted : (Slot.deleted : Slot E).content = none := rfl

theorem entry_ne_empty (e : E) : Slot.entry e ≠ .empty := by
  intro h
  cases h

theorem deleted_ne_empty : (Slot.deleted : Slot E) ≠ .empty := by
  intro h
  cases h

theorem eq_entry {s : Slot E} {e : E} (h : s.content = some e) : s = .entry e := by
  cases s with
  | empty => cases h
  | deleted => cases h
  | entry e' => rw [Option.some.inj h]

end Slot

variable {E K : Type} {slots : List (Slot E)} {n : Nat} {s : Slot E}

/-! ## Slots and entries -/

/-- The entries of the table. -/
def live (slots : List (Slot E)) : List E := slots.filterMap Slot.content

/-- The number of slots that are marked as deleted. -/
def deletions (slots : List (Slot E)) : Nat := slots.countP Slot.isDeleted

theorem mem_live {e : E} : e ∈ live slots ↔ ∃ n : Nat, slots[n]? = some (.entry e) := by
  rw [live, List.mem_filterMap]
  constructor
  · rintro ⟨s, hs, he⟩
    obtain ⟨n, hn⟩ := List.mem_iff_getElem?.mp hs
    exact ⟨n, hn.trans (congrArg some (Slot.eq_entry he))⟩
  · rintro ⟨n, hn⟩
    exact ⟨_, List.mem_of_getElem? hn, rfl⟩

/-- Writing one slot: the list is the same before and behind it. -/
theorem exists_split (h : slots[n]? = some s) :
    ∃ before after, slots = before ++ s :: after ∧ n = before.length ∧ ∀ s', slots.set n s' = before ++ s' :: after := by
  obtain ⟨hn, rfl⟩ := List.getElem?_eq_some_iff.mp h
  refine ⟨slots.take n, slots.drop (n + 1), ?_, ?_, fun s' => ?_⟩
  · rw [List.getElem_cons_drop, List.take_append_drop]
  · rw [List.length_take, Nat.min_eq_left (Nat.le_of_lt hn)]
  · rw [List.set_eq_take_append_cons_drop, if_pos hn]

theorem live_split (before : List (Slot E)) (s : Slot E) (after : List (Slot E)) :
    (live (before ++ s :: after)).Perm (s.content.toList ++ live (before ++ after)) := by
  unfold live
  rw [List.filterMap_append, List.filterMap_append]
  cases hs : s.content with
  | none =>
      rw [List.filterMap_cons_none hs]
      exact List.Perm.refl _
  | some e =>
      rw [List.filterMap_cons_some hs]
      exact List.perm_middle

/-- What the other slots hold is not touched by a write. -/
theorem live_set (h : slots[n]? = some s) :
    ∃ rest, (live slots).Perm (s.content.toList ++ rest) ∧
      ∀ s', (live (slots.set n s')).Perm (s'.content.toList ++ rest) := by
  obtain ⟨before, after, hslots, -, hset⟩ := exists_split h
  refine ⟨live (before ++ after), ?_, fun s' => ?_⟩
  · rw [hslots]
    exact live_split before s after
  · rw [hset]
    exact live_split before s' after

theorem length_live_set (h : slots[n]? = some s) (s' : Slot E) :
    (live (slots.set n s')).length + s.content.toList.length = (live slots).length + s'.content.toList.length := by
  obtain ⟨rest, hperm, hset⟩ := live_set h
  rw [hperm.length_eq, (hset s').length_eq, List.length_append, List.length_append]
  omega

theorem deletions_set (h : slots[n]? = some s) (s' : Slot E) :
    deletions (slots.set n s') + (if s.isDeleted then 1 else 0) =
      deletions slots + if s'.isDeleted then 1 else 0 := by
  obtain ⟨before, after, hslots, -, hset⟩ := exists_split h
  rw [hset, hslots, deletions, deletions]
  simp only [List.countP_append, List.countP_cons]
  omega

/-- Unless entries and marks fill the table, there is an empty slot. -/
theorem exists_empty (h : (live slots).length + deletions slots < slots.length) :
    ∃ n : Nat, slots[n]? = some .empty := by
  have hmem : Slot.empty ∈ slots := by
    by_contra hno
    have hfull : slots.length = (live slots).length + deletions slots := by
      clear h
      induction slots with
      | nil => rfl
      | cons s slots ih =>
          have hih := ih fun hmem => hno (List.mem_cons_of_mem s hmem)
          rw [live, deletions] at hih ⊢
          cases s with
          | empty => exact absurd List.mem_cons_self hno
          | deleted =>
              rw [List.filterMap_cons_none rfl, List.countP_cons_of_pos rfl, List.length_cons, hih]
              rfl
          | entry e =>
              rw [List.filterMap_cons_some (Slot.content_entry e), List.countP_cons_of_neg (by simp [Slot.isDeleted]),
                List.length_cons, List.length_cons, hih]
              omega
    omega
  exact List.mem_iff_getElem?.mp hmem

/-! ## Well-placed entries -/

/-- Every entry lies where it is looked for, without an empty slot before it, and no two have the same key. -/
structure Placed (key : E → K) (probe : K → Nat → Nat) (slots : List (Slot E)) : Prop where
  reach : ∀ e ∈ live slots, ∃ i, slots[probe (key e) i]? = some (.entry e) ∧
    ∀ j < i, slots[probe (key e) j]? ≠ some .empty
  nodup : ((live slots).map key).Nodup

/-- The table has the entries of the map `m`. -/
def Represents (key : E → K) (slots : List (Slot E)) (m : K → Option E) : Prop :=
  ∀ k e, m k = some e ↔ e ∈ live slots ∧ key e = k

section

variable {key : E → K} {probe : K → Nat → Nat} {m : K → Option E} {k : K} {e : E} {i : Nat}

/-- A search for `k` stops at this slot. -/
def Stops (key : E → K) (k : K) (slot : Option (Slot E)) : Prop :=
  slot = some .empty ∨ ∃ e, slot = some (.entry e) ∧ key e = k

/-- **A search** finds what the map has: it looks at the places of the key until it comes to the first empty one. -/
theorem Placed.search (h : Placed key probe slots) (hm : Represents key slots m)
    (hstop : Stops key k slots[probe k i]?) (hbefore : ∀ j < i, ¬ Stops key k slots[probe k j]?) :
    m k = slots[probe k i]?.bind Slot.content := by
  rcases hstop with hempty | ⟨e, he, hkey⟩
  · rw [hempty]
    cases hmk : m k with
    | none => rfl
    | some e =>
        -- an entry with this key would have been seen before
        obtain ⟨hlive, rfl⟩ := (hm k e).mp hmk
        obtain ⟨i', hi', hreach⟩ := h.reach e hlive
        have hlt : i' < i := by
          by_contra hge
          rcases Nat.lt_or_eq_of_le (Nat.le_of_not_lt hge) with hlt | rfl
          · exact hreach i hlt hempty
          · cases hempty.symm.trans hi'
        exact absurd (.inr ⟨e, hi', rfl⟩) (hbefore i' hlt)
  · rw [he]
    exact (hm k e).mpr ⟨mem_live.mpr ⟨_, he⟩, hkey⟩

/-- The places before the first empty one stay as good as they were when no slot becomes empty. -/
theorem Placed.reach_set (h : Placed key probe slots) (hs' : s ≠ .empty) {e' : E} (he' : e' ∈ live slots)
    (hold : slots[n]? ≠ some (.entry e')) :
    ∃ i, (slots.set n s)[probe (key e') i]? = some (.entry e') ∧
      ∀ j < i, (slots.set n s)[probe (key e') j]? ≠ some .empty := by
  obtain ⟨i, hi, hbefore⟩ := h.reach e' he'
  refine ⟨i, ?_, fun j hj => ?_⟩
  · rw [List.getElem?_set_ne]
    · exact hi
    · rintro rfl
      exact hold hi
  · by_cases hn : n = probe (key e') j
    · rw [← hn, List.getElem?_set, if_pos rfl]
      split_ifs
      · exact fun hempty => hs' (Option.some.inj hempty)
      · exact nofun
    · rw [List.getElem?_set_ne hn]
      exact hbefore j hj

variable [DecidableEq K]

/-- A table of well-placed entries represents a map. -/
theorem Placed.represents_find (h : Placed key probe slots) :
    Represents key slots fun k => (live slots).find? fun e => key e = k := by
  intro k e
  constructor
  · intro hfind
    have hkey := List.find?_some hfind
    exact ⟨List.mem_of_find?_eq_some hfind, of_decide_eq_true hkey⟩
  · rintro ⟨he, rfl⟩
    show (live slots).find? (fun e' => decide (key e' = key e)) = some e
    cases hfind : (live slots).find? fun e' => decide (key e' = key e) with
    | none => exact absurd (List.find?_eq_none.mp hfind e he) (by simp)
    | some e' =>
        have hmem := List.mem_of_find?_eq_some hfind
        have hkey := List.find?_some hfind
        rw [List.inj_on_of_nodup_map h.nodup hmem he (of_decide_eq_true hkey)]

/-- **Writing an entry** into a slot at one of its places that had none, behind no empty slot. -/
theorem Placed.put (h : Placed key probe slots) (hm : Represents key slots m) (hslot : slots[probe (key e) i]? = some s)
    (hfree : s.content = none) (hbefore : ∀ j < i, slots[probe (key e) j]? ≠ some .empty) (habsent : m (key e) = none) :
    Placed key probe (slots.set (probe (key e) i) (.entry e)) ∧
      Represents key (slots.set (probe (key e) i) (.entry e)) (Function.update m (key e) (some e)) := by
  obtain ⟨rest, hperm, hset⟩ := live_set hslot
  rw [hfree] at hperm
  have hlive : (live (slots.set (probe (key e) i) (.entry e))).Perm (e :: live slots) :=
    (hset (.entry e)).trans (hperm.symm.cons e)
  have hother : ∀ e' ∈ live slots, key e' ≠ key e := by
    intro e' he' hkey
    have hsome := (hm (key e) e').mpr ⟨he', hkey⟩
    rw [habsent] at hsome
    cases hsome
  refine ⟨⟨fun e' he' => ?_, ?_⟩, fun k e' => ?_⟩
  · rcases List.mem_cons.mp (hlive.mem_iff.mp he') with rfl | he'
    · have hlt := (List.getElem?_eq_some_iff.mp hslot).1
      -- the places before the new one: the first visit of this slot counts
      by_cases hearlier : ∃ j < i, probe (key e') j = probe (key e') i
      · obtain ⟨j, ⟨hj, hprobe⟩, hfirst⟩ : ∃ j, (j < i ∧ probe (key e') j = probe (key e') i) ∧
            ∀ j' < j, ¬ (j' < i ∧ probe (key e') j' = probe (key e') i) := by
          classical
          exact ⟨Nat.find hearlier, Nat.find_spec hearlier, fun j' hj' => Nat.find_min hearlier hj'⟩
        refine ⟨j, by rw [hprobe, List.getElem?_set_self hlt], fun j' hj' => ?_⟩
        rw [List.getElem?_set_ne fun heq => hfirst j' hj' ⟨Nat.lt_trans hj' hj, heq.symm⟩]
        exact hbefore j' (Nat.lt_trans hj' hj)
      · refine ⟨i, List.getElem?_set_self hlt, fun j hj => ?_⟩
        rw [List.getElem?_set_ne fun heq => hearlier ⟨j, hj, heq.symm⟩]
        exact hbefore j hj
    · refine h.reach_set (Slot.entry_ne_empty e) he' fun hentry => ?_
      rw [hslot] at hentry
      rw [Option.some.inj hentry] at hfree
      cases hfree
  · rw [(hlive.map key).nodup_iff, List.map_cons, List.nodup_cons]
    refine ⟨fun hmem => ?_, h.nodup⟩
    obtain ⟨e', he', hkey⟩ := List.mem_map.mp hmem
    exact hother e' he' hkey
  · rw [hlive.mem_iff, List.mem_cons]
    by_cases hk : k = key e
    · subst hk
      rw [Function.update_self]
      constructor
      · intro heq
        exact ⟨.inl (Option.some.inj heq).symm, by rw [Option.some.inj heq]⟩
      · rintro ⟨rfl | he', hkey⟩
        · rfl
        · exact absurd hkey (hother e' he')
    · rw [Function.update_of_ne hk, hm]
      constructor
      · exact fun he' => ⟨.inr he'.1, he'.2⟩
      · rintro ⟨rfl | he', hkey⟩
        · exact absurd hkey.symm hk
        · exact ⟨he', hkey⟩

omit [DecidableEq K] in
/-- What is left of a table without one of its entries. -/
theorem Placed.others (h : Placed key probe slots) (hslot : slots[n]? = some (.entry e)) :
    ∃ rest, (live slots).Perm (e :: rest) ∧ (∀ s', (live (slots.set n s')).Perm (s'.content.toList ++ rest)) ∧
      (rest.map key).Nodup ∧ ∀ e' ∈ rest, key e' ≠ key e := by
  obtain ⟨rest, hperm, hset⟩ := live_set hslot
  have hperm' : (live slots).Perm (e :: rest) := hperm
  have hnodup := h.nodup
  rw [(hperm'.map key).nodup_iff, List.map_cons, List.nodup_cons] at hnodup
  exact ⟨rest, hperm', hset, hnodup.2, fun e' he' hkey => hnodup.1 (List.mem_map.mpr ⟨e', he', hkey⟩)⟩

/-- **Deleting an entry** leaves a mark in its slot. -/
theorem Placed.delete (h : Placed key probe slots) (hm : Represents key slots m) (hslot : slots[n]? = some (.entry e)) :
    Placed key probe (slots.set n .deleted) ∧
      Represents key (slots.set n .deleted) (Function.update m (key e) none) := by
  obtain ⟨rest, hperm, hset, hnodup, hother⟩ := h.others hslot
  have hlive : (live (slots.set n .deleted)).Perm rest := hset .deleted
  have hold : ∀ e' ∈ rest, slots[n]? ≠ some (.entry e') := by
    intro e' he' hentry
    rw [hslot] at hentry
    cases hentry
    exact hother e he' rfl
  refine ⟨⟨fun e' he' => ?_, ?_⟩, fun k e' => ?_⟩
  · have hrest := hlive.mem_iff.mp he'
    exact h.reach_set Slot.deleted_ne_empty (hperm.mem_iff.mpr (List.mem_cons_of_mem e hrest)) (hold e' hrest)
  · rw [(hlive.map key).nodup_iff]
    exact hnodup
  · rw [hlive.mem_iff]
    by_cases hk : k = key e
    · subst hk
      rw [Function.update_self]
      refine iff_of_false nofun ?_
      rintro ⟨he', hkey⟩
      exact hother e' he' hkey
    · rw [Function.update_of_ne hk, hm, hperm.mem_iff, List.mem_cons]
      constructor
      · rintro ⟨rfl | he', hkey⟩
        · exact absurd hkey.symm hk
        · exact ⟨he', hkey⟩
      · exact fun he' => ⟨.inr he'.1, he'.2⟩

/-- **Replacing an entry** by one with the same key. -/
theorem Placed.replace (h : Placed key probe slots) (hm : Represents key slots m) {old : E}
    (hslot : slots[n]? = some (.entry old)) (hkey : key e = key old) :
    Placed key probe (slots.set n (.entry e)) ∧
      Represents key (slots.set n (.entry e)) (Function.update m (key e) (some e)) := by
  obtain ⟨rest, hperm, hset, hnodup, hother⟩ := h.others hslot
  have hlive : (live (slots.set n (.entry e))).Perm (e :: rest) := hset (.entry e)
  have hlt := (List.getElem?_eq_some_iff.mp hslot).1
  refine ⟨⟨fun e' he' => ?_, ?_⟩, fun k e' => ?_⟩
  · rcases List.mem_cons.mp (hlive.mem_iff.mp he') with rfl | he'
    · obtain ⟨i, hi, hbefore⟩ := h.reach old (mem_live.mpr ⟨n, hslot⟩)
      rw [← hkey] at hi hbefore
      -- the old entry was there and nowhere else
      have hn : probe (key e') i = n := by
        by_contra hne
        obtain ⟨rest', hperm', hset'⟩ := live_set hslot
        have hstill : old ∈ live (slots.set n .deleted) :=
          mem_live.mpr ⟨probe (key e') i, by rw [List.getElem?_set_ne (Ne.symm hne), hi]⟩
        have hrest : (live (slots.set n .deleted)).Perm rest := hset .deleted
        exact hother old (hrest.mem_iff.mp hstill) rfl
      refine ⟨i, by rw [hn, List.getElem?_set_self hlt], fun j hj => ?_⟩
      by_cases hj' : n = probe (key e') j
      · rw [← hj', List.getElem?_set_self hlt]
        exact fun heq => nomatch Option.some.inj heq
      · rw [List.getElem?_set_ne hj']
        exact hbefore j hj
    · refine h.reach_set (Slot.entry_ne_empty e) (hperm.mem_iff.mpr (List.mem_cons_of_mem old he')) fun hentry => ?_
      rw [hslot] at hentry
      cases hentry
      exact hother old he' rfl
  · rw [(hlive.map key).nodup_iff, List.map_cons, List.nodup_cons]
    refine ⟨fun hmem => ?_, hnodup⟩
    obtain ⟨e', he', hkey'⟩ := List.mem_map.mp hmem
    exact hother e' he' (hkey'.trans hkey)
  · rw [hlive.mem_iff, List.mem_cons]
    by_cases hk : k = key e
    · subst hk
      rw [Function.update_self]
      constructor
      · intro heq
        exact ⟨.inl (Option.some.inj heq).symm, by rw [Option.some.inj heq]⟩
      · rintro ⟨rfl | he', hkey'⟩
        · rfl
        · exact absurd (hkey'.trans hkey) (hother e' he')
    · rw [Function.update_of_ne hk, hm, hperm.mem_iff, List.mem_cons]
      constructor
      · rintro ⟨rfl | he', hkey'⟩
        · exact absurd (hkey'.symm.trans hkey.symm) hk
        · exact ⟨.inr he', hkey'⟩
      · rintro ⟨rfl | he', hkey'⟩
        · exact absurd hkey'.symm hk
        · exact ⟨.inr he', hkey'⟩

end

/-! ## Double hashing -/

/-- The `i`-th place: `h₁`, and from there in steps of `h₂`. -/
def doubleHash (size h₁ h₂ i : Nat) : Nat := (h₁ + i * h₂) % size

/-- **Every slot is looked at** when the step has no factor in common with the size. -/
theorem exists_doubleHash {size h₁ h₂ : Nat} (hcoprime : Nat.Coprime size h₂) (hn : n < size) :
    ∃ i < size, doubleHash size h₁ h₂ i = n := by
  have hpos : 0 < size := Nat.zero_lt_of_lt hn
  have hinj : Function.Injective fun i : Fin size => (⟨doubleHash size h₁ h₂ i, Nat.mod_lt _ hpos⟩ : Fin size) := by
    intro i j hij
    have hmod : h₁ + i.1 * h₂ ≡ h₁ + j.1 * h₂ [MOD size] := congrArg Fin.val hij
    have hcancel := Nat.ModEq.cancel_right_of_coprime hcoprime (Nat.ModEq.add_left_cancel' h₁ hmod)
    rw [Nat.ModEq, Nat.mod_eq_of_lt i.2, Nat.mod_eq_of_lt j.2] at hcancel
    exact Fin.ext hcancel
  obtain ⟨i, hi⟩ := Finite.surjective_of_injective hinj ⟨n, hn⟩
  exact ⟨i.1, i.2, congrArg Fin.val hi⟩

/-- A loop whose states are numbered is left at the first number at which a pass leaves it. -/
theorem loopRun_numbered {σ β : Type} {pass : σ → Pass σ β} {state : Nat → σ} {i : Nat} {b : β} {fuel : Nat}
    (hagain : ∀ j < i, pass (state j) = .again (state (j + 1))) (hleave : pass (state i) = .leave b) (hfuel : i < fuel) :
    loopRun pass fuel (state 0) = some b := by
  have hrun : ∀ d j fuel, j + d = i → d < fuel → loopRun pass fuel (state j) = some b := by
    intro d
    induction d with
    | zero =>
        intro j fuel hj hfuel
        obtain ⟨fuel, rfl⟩ : ∃ fuel', fuel = fuel' + 1 := ⟨fuel - 1, by omega⟩
        rw [Nat.add_zero] at hj
        rw [hj, Loop.loopRun_leave hleave]
    | succ d ih =>
        intro j fuel hj hfuel
        obtain ⟨fuel, rfl⟩ : ∃ fuel', fuel = fuel' + 1 := ⟨fuel - 1, by omega⟩
        rw [Loop.loopRun_again (hagain j (by omega))]
        exact ih (j + 1) fuel (by omega) (by omega)
  exact hrun i 0 fuel (Nat.zero_add i) hfuel

end Probing

end GccXml
