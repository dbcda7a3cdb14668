import GccXml.Libiberty.HashTable

namespace GccXml

/-! # `Libiberty.HashSearch` — searching, inserting and rehashing

What one call of a function of `hashtab.c` does to a table that represents a map. The size is a prime and the step of
the double hashing is smaller than it, so a search looks at every slot, and it ends because some slot is empty. The
additions of the code stay below 32 bits while the table has fewer than `2 ^ 31` slots; the largest prime of the table
is above that.

`Probing` has the theory of such tables for any sequence of places that comes to every slot. Here the sequence is that
of the code, `Shape` makes it one, and `Table` adds that the counts which the code keeps are the numbers of entries and
of marks. Then there is one theorem for each function:

* a search ends at the entry of the key or at an empty slot, and the slot for an insertion is the first deleted one on
  the way, if there is one;

* deleting leaves a mark, so that the places behind it are still found;

* expanding puts every entry into a new array, in the order of the old one, where nothing is deleted and no key is met
  twice. `Refilled` is the invariant of that loop. Afterwards half of the table is empty, which is what the next
  insertions live on. -/

namespace HashTable

open Probing

variable {E K : Type} {key : E → K} {hash : K → UInt32} {t : Htab E} {m : K → Option E} {k : K} {e : E}

/-! ## The places of a hash value -/

/-- The `i`-th slot that the code looks at. -/
def places (size : Nat) (hash : UInt32) (i : Nat) : Nat :=
  doubleHash size (hash.toNat % size) (1 + hash.toNat % (size - 2)) i

/-- **The shape of a table**: its size is one of the primes below `2 ^ 31`. -/
structure Shape (t : Htab E) : Prop where
  lt : t.sizePrimeIndex < 29
  prime : primeTab[t.sizePrimeIndex]?.map PrimeEnt.prime = some t.size
  length : t.entries.length = t.size

theorem primeTab_le : ∀ p ∈ primeTab.take 29, p.prime ≤ 2147483647 := by decide

/-- The prime of a table. -/
theorem Shape.exists_prime (h : Shape t) :
    ∃ p ∈ primeTab.take 29, primeTab[t.sizePrimeIndex]? = some p ∧ p.prime = t.size := by
  obtain ⟨p, hp, hsize⟩ := Option.map_eq_some_iff.mp h.prime
  exact ⟨p, List.mem_of_getElem? ((List.getElem?_take_of_lt h.lt).trans hp), hp, hsize⟩

theorem Shape.size_prime (h : Shape t) : t.size.Prime := by
  obtain ⟨p, hp, -, hsize⟩ := h.exists_prime
  rw [← hsize]
  exact prime_primeTab hp

theorem Shape.size_le (h : Shape t) : t.size ≤ 2147483647 := by
  obtain ⟨p, hp, -, hsize⟩ := h.exists_prime
  rw [← hsize]
  exact primeTab_le p hp

theorem Shape.seven_le (h : Shape t) : 7 ≤ t.size := by
  obtain ⟨p, hp, -, hsize⟩ := h.exists_prime
  rw [← hsize]
  exact (primeTab_divides p (List.mem_of_mem_take hp)).2.2.2

theorem Shape.places_lt (h : Shape t) (hash : UInt32) (i : Nat) : places t.size hash i < t.size :=
  Nat.mod_lt _ (Nat.lt_of_lt_of_le (by decide) h.seven_le)

/-- The step is smaller than the size. -/
theorem Shape.step_lt (h : Shape t) (hash : UInt32) : 1 + hash.toNat % (t.size - 2) < t.size := by
  have hseven := h.seven_le
  have hmod : hash.toNat % (t.size - 2) < t.size - 2 := Nat.mod_lt _ (by omega)
  omega

/-- `htab_mod` is the first place. -/
theorem Shape.htabMod_eq (h : Shape t) (hash : UInt32) : t.htabMod hash = some (places t.size hash 0) := by
  obtain ⟨p, hp, hget, hsize⟩ := h.exists_prime
  rw [Htab.htabMod, hget, Option.map_some, (htabMod1_primeTab (List.mem_of_mem_take hp) hash).1, hsize, places, doubleHash,
    Nat.zero_mul, Nat.add_zero, Nat.mod_mod]

/-- `htab_mod_m2` is the step. -/
theorem Shape.htabModM2_eq (h : Shape t) (hash : UInt32) :
    t.htabModM2 hash = some (1 + hash.toNat % (t.size - 2)) := by
  obtain ⟨p, hp, hget, hsize⟩ := h.exists_prime
  have hlt := h.step_lt hash
  have hle := h.size_le
  rw [Htab.htabModM2, hget, Option.map_some, (htabMod1_primeTab (List.mem_of_mem_take hp) hash).2, hsize,
    Nat.mod_eq_of_lt (by omega)]

/-- **One step of the search** leads to the next place: the sum stays in the word. -/
theorem Shape.nextIndex_eq (h : Shape t) (hash : UInt32) (i : Nat) :
    t.nextIndex (1 + hash.toNat % (t.size - 2)) (places t.size hash i) = places t.size hash (i + 1) := by
  have hlt := h.places_lt hash i
  have hstep := h.step_lt hash
  have hle := h.size_le
  have hnext : places t.size hash (i + 1) =
      (places t.size hash i + (1 + hash.toNat % (t.size - 2))) % t.size := by
    unfold places doubleHash
    generalize hash.toNat % t.size = first
    generalize 1 + hash.toNat % (t.size - 2) = step
    rw [Nat.mod_add_mod, Nat.add_mul, Nat.one_mul, Nat.add_assoc]
  rw [hnext]
  unfold Htab.nextIndex
  dsimp only
  generalize places t.size hash i = index at hlt
  generalize 1 + hash.toNat % (t.size - 2) = step at hstep
  rw [Nat.mod_eq_of_lt (show index + step < 2 ^ 32 by omega)]
  split_ifs with hwrap
  · rw [Nat.mod_eq_sub_mod hwrap, Nat.mod_eq_of_lt (by omega)]
  · rw [Nat.mod_eq_of_lt (Nat.lt_of_not_le hwrap)]

/-- Every slot is a place of every hash value. -/
theorem Shape.exists_places (h : Shape t) (hash : UInt32) {n : Nat} (hn : n < t.size) :
    ∃ i < t.size, places t.size hash i = n := by
  have hcoprime : Nat.Coprime t.size (1 + hash.toNat % (t.size - 2)) :=
    Nat.coprime_of_lt_prime (by omega) (h.step_lt hash) h.size_prime
  exact exists_doubleHash hcoprime hn

/-! ## Tables -/

/-- **A table of the map `m`.** The counts of the code count the entries and the marks, and one slot is empty. -/
structure Table (key : E → K) (hash : K → UInt32) (t : Htab E) (m : K → Option E) : Prop extends Shape t where
  placed : Placed key (fun k => places t.size (hash k)) t.entries
  represents : Represents key t.entries m
  nElements : t.nElements = (live t.entries).length + deletions t.entries
  nDeleted : t.nDeleted = deletions t.entries
  room : t.nElements < t.size

theorem Table.htabElements_eq (h : Table key hash t m) : t.htabElements = (live t.entries).length := by
  rw [Htab.htabElements, h.nElements, h.nDeleted, Nat.add_sub_cancel]

/-- The first place at which something holds, when an empty slot is such a place. -/
theorem Shape.exists_first (h : Shape t) (hroom : (live t.entries).length + deletions t.entries < t.size) (hash : UInt32)
    (P : Option (Slot E) → Prop) (hempty : P (some .empty)) :
    ∃ i < t.size, P t.entries[places t.size hash i]? ∧ ∀ j < i, ¬ P t.entries[places t.size hash j]? := by
  classical
  obtain ⟨n, hn⟩ := exists_empty (h.length ▸ hroom : (live t.entries).length + deletions t.entries < t.entries.length)
  obtain ⟨i, hi, rfl⟩ := h.exists_places hash (h.length ▸ (List.getElem?_eq_some_iff.mp hn).1)
  have hexists : ∃ i, P t.entries[places t.size hash i]? := ⟨i, hn ▸ hempty⟩
  refine ⟨Nat.find hexists, Nat.lt_of_le_of_lt (Nat.find_min' hexists (hn ▸ hempty)) hi, Nat.find_spec hexists, ?_⟩
  exact fun j hj => Nat.find_min hexists hj

/-- A place has a slot. -/
theorem Shape.exists_slot (h : Shape t) (hash : UInt32) (i : Nat) :
    ∃ s, t.entries[places t.size hash i]? = some s :=
  ⟨_, List.getElem?_eq_getElem (h.length ▸ h.places_lt hash i)⟩

variable [DecidableEq K]

/-! ## `htab_find_with_hash` -/

/-- **`htab_find_with_hash`** ends, and finds what the map has. -/
theorem Table.htabFindWithHash (h : Table key hash t m) (k : K) :
    htabFindWithHash t (fun e => key e = k) (hash k) = some (m k) := by
  obtain ⟨i, hi, hstop, hbefore⟩ := h.exists_first (h.nElements ▸ h.room) (hash k) (Stops key k) (.inl rfl)
  have hagain : ∀ j < i, findPass t (fun e => key e = k) (1 + (hash k).toNat % (t.size - 2)) (places t.size (hash k) j) =
      .again (places t.size (hash k) (j + 1)) := by
    intro j hj
    obtain ⟨s, hs⟩ := h.exists_slot (hash k) j
    have hno := hbefore j hj
    rw [hs] at hno
    rw [findPass, hs]
    cases s with
    | empty => exact absurd (.inl rfl) hno
    | deleted =>
        rw [← h.nextIndex_eq]
    | entry e =>
        have hkey : ¬ key e = k := fun hkey => hno (.inr ⟨e, rfl, hkey⟩)
        dsimp only
        rw [if_neg (by simpa using hkey), h.nextIndex_eq]
  have hleave : findPass t (fun e => key e = k) (1 + (hash k).toNat % (t.size - 2)) (places t.size (hash k) i) =
      .leave (some (m k)) := by
    rw [h.placed.search h.represents hstop hbefore, findPass]
    rcases hstop with hempty | ⟨e, he, hkey⟩
    · rw [hempty]
      rfl
    · rw [he]
      exact if_pos (decide_eq_true hkey)
  rw [HashTable.htabFindWithHash, h.htabMod_eq, h.htabModM2_eq]
  simp only [Option.bind_eq_bind, Option.bind_some]
  rw [loopRun_numbered hagain hleave hi, Option.join_some]

/-! ## `htab_find_slot_with_hash` -/

/-- The first deleted slot among the first `i` places. -/
def firstDeleted (entries : List (Slot E)) (place : Nat → Nat) (i : Nat) : Option Nat :=
  ((List.range i).map place).find? fun n => entries[n]?.any Slot.isDeleted

omit [DecidableEq K] in
theorem firstDeleted_succ (entries : List (Slot E)) (place : Nat → Nat) (i : Nat) :
    firstDeleted entries place (i + 1) =
      (firstDeleted entries place i).or (if entries[place i]?.any Slot.isDeleted then some (place i) else none) := by
  unfold firstDeleted
  rw [List.range_succ, List.map_append, List.find?_append, List.map_singleton, List.find?_singleton]

theorem firstDeleted_eq_some {entries : List (Slot E)} {place : Nat → Nat} {i d : Nat}
    (h : firstDeleted entries place i = some d) : ∃ j < i, place j = d ∧ entries[d]? = some .deleted := by
  have hdeleted := List.find?_some h
  obtain ⟨j, hj, rfl⟩ := List.mem_map.mp (List.mem_of_find?_eq_some h)
  refine ⟨j, List.mem_range.mp hj, rfl, ?_⟩
  cases hslot : entries[place j]? with
  | none =>
      rw [hslot] at hdeleted
      cases hdeleted
  | some s =>
      rw [hslot, Option.any_some] at hdeleted
      cases s with
      | deleted => rfl
      | empty => cases hdeleted
      | entry e => cases hdeleted

/-- What the search of `htab_find_slot_with_hash` comes to, for a key of the map and for another one. In the second case
    an entry can be put into the slot: it is one of the places of the key, behind no empty slot. -/
inductive ProbedFor (key : E → K) (hash : K → UInt32) (t : Htab E) (m : K → Option E) (k : K) : Probed → Prop where
  | found {n : Nat} {e : E} (hslot : t.entries[n]? = some (.entry e)) (hkey : key e = k) (hm : m k = some e) :
      ProbedFor key hash t m k (.found n)
  | absent {n i : Nat} {d : Option Nat} (hm : m k = none) (hplace : places t.size (hash k) i = d.getD n)
      (hbefore : ∀ j < i, t.entries[places t.size (hash k) j]? ≠ some .empty)
      (hslot : t.entries[d.getD n]? = some (if d.isSome then .deleted else .empty)) :
      ProbedFor key hash t m k (.empty n d)

/-- **The search of `htab_find_slot_with_hash`** ends. -/
theorem Table.probeSlot (h : Table key hash t m) (k : K) :
    ∃ probed, probeSlot t (fun e => key e = k) (hash k) = some probed ∧ ProbedFor key hash t m k probed := by
  obtain ⟨i, hi, hstop, hbefore⟩ := h.exists_first (h.nElements ▸ h.room) (hash k) (Stops key k) (.inl rfl)
  have hagain : ∀ j < i, slotPass t (fun e => key e = k) (1 + (hash k).toNat % (t.size - 2))
      (places t.size (hash k) j, firstDeleted t.entries (places t.size (hash k)) j) =
        .again (places t.size (hash k) (j + 1), firstDeleted t.entries (places t.size (hash k)) (j + 1)) := by
    intro j hj
    obtain ⟨s, hs⟩ := h.exists_slot (hash k) j
    have hno := hbefore j hj
    rw [hs] at hno
    rw [slotPass, hs, firstDeleted_succ, hs, h.nextIndex_eq]
    cases s with
    | empty => exact absurd (.inl rfl) hno
    | deleted => rfl
    | entry e =>
        have hkey : ¬ key e = k := fun hkey => hno (.inr ⟨e, rfl, hkey⟩)
        dsimp only
        rw [if_neg (by simpa using hkey)]
        simp [Slot.isDeleted]
  have hrun : ∀ probed, slotPass t (fun e => key e = k) (1 + (hash k).toNat % (t.size - 2))
      (places t.size (hash k) i, firstDeleted t.entries (places t.size (hash k)) i) = .leave (some probed) →
        HashTable.probeSlot t (fun e => key e = k) (hash k) = some probed := by
    intro probed hleave
    rw [HashTable.probeSlot, h.htabMod_eq, h.htabModM2_eq]
    simp only [Option.bind_eq_bind, Option.bind_some]
    exact congrArg Option.join (loopRun_numbered hagain hleave hi)
  have hsearch := h.placed.search h.represents hstop hbefore
  rcases hstop with hempty | ⟨e, he, hkey⟩
  · rw [hempty] at hsearch
    refine ⟨_, hrun (.empty (places t.size (hash k) i) (firstDeleted t.entries (places t.size (hash k)) i)) ?_, ?_⟩
    · rw [slotPass, hempty]
    · have hnone : ∀ j < i, t.entries[places t.size (hash k) j]? ≠ some .empty := fun j hj heq => hbefore j hj (.inl heq)
      cases hfirst : firstDeleted t.entries (places t.size (hash k)) i with
      | none => exact .absent hsearch rfl hnone hempty
      | some d =>
          obtain ⟨j, hj, hplace, hdeleted⟩ := firstDeleted_eq_some hfirst
          exact .absent hsearch hplace (fun j' hj' => hnone j' (Nat.lt_trans hj' hj)) hdeleted
  · rw [he] at hsearch
    refine ⟨_, hrun (.found (places t.size (hash k) i)) ?_, .found he hkey hsearch⟩
    rw [slotPass, he]
    exact if_pos (decide_eq_true hkey)

/-- **`htab_find_slot_with_hash`** with `NO_INSERT` changes nothing. -/
theorem Table.findSlot_noInsert (h : Table key hash t m) (k : K) :
    (∃ n e, htabFindSlotWithHash (hash ∘ key) t (fun e => key e = k) (hash k) false = some (t, some n) ∧
      t.entries[n]? = some (.entry e) ∧ key e = k ∧ m k = some e) ∨
      htabFindSlotWithHash (hash ∘ key) t (fun e => key e = k) (hash k) false = some (t, none) ∧ m k = none := by
  obtain ⟨probed, hprobe, hprobed⟩ := h.probeSlot k
  have hexpand : expandIfFull (hash ∘ key) t false = some t := if_neg fun hfull => Bool.false_ne_true hfull.1
  rw [htabFindSlotWithHash, hexpand]
  simp only [Option.bind_eq_bind, Option.bind_some, hprobe]
  cases hprobed with
  | found hslot hkey hm => exact .inl ⟨_, _, rfl, hslot, hkey, hm⟩
  | absent hm => exact .inr ⟨rfl, hm⟩

/-! ## Deleting -/

/-- **A mark in the place of an entry.** -/
theorem Table.markDeleted (h : Table key hash t m) {n : Nat} (hslot : t.entries[n]? = some (.entry e)) :
    Table key hash (markDeleted t n) (Function.update m (key e) none) := by
  obtain ⟨hplaced, hrepresents⟩ := h.placed.delete h.represents hslot
  have hlive : (live (t.entries.set n .deleted)).length + 1 = (live t.entries).length := length_live_set hslot .deleted
  have hdeletions : deletions (t.entries.set n .deleted) = deletions t.entries + 1 := deletions_set hslot .deleted
  refine ⟨⟨h.lt, h.prime, List.length_set.trans h.length⟩, hplaced, hrepresents, ?_, ?_, h.room⟩
  · show t.nElements = (live (t.entries.set n .deleted)).length + deletions (t.entries.set n .deleted)
    rw [h.nElements]
    omega
  · show t.nDeleted + 1 = deletions (t.entries.set n .deleted)
    rw [h.nDeleted, hdeletions]

/-- **`htab_remove_elt_with_hash`** deletes the entry of a key, and follows a null pointer when there is none. -/
theorem Table.htabRemoveEltWithHash (h : Table key hash t m) (k : K) :
    match m k with
    | some e => ∃ t', htabRemoveEltWithHash (hash ∘ key) t (fun e => key e = k) (hash k) = some (t', some e) ∧
        Table key hash t' (Function.update m k none)
    | none => htabRemoveEltWithHash (hash ∘ key) t (fun e => key e = k) (hash k) = none := by
  obtain ⟨n, e, hfind, hslot, rfl, hm⟩ | ⟨hfind, hm⟩ := h.findSlot_noInsert k
  · rw [hm]
    refine ⟨HashTable.markDeleted t n, ?_, h.markDeleted hslot⟩
    rw [HashTable.htabRemoveEltWithHash, hfind]
    simp only [Option.bind_eq_bind, Option.bind_some, hslot, Slot.content_entry]
  · rw [hm]
    rw [HashTable.htabRemoveEltWithHash, hfind]
    rfl

/-! ## `htab_expand` -/

omit [DecidableEq K] in
/-- The size that `htab_expand` chooses has room for twice the entries. -/
theorem Table.expandedSize (h : Table key hash t m) (hlive : 2 * (live t.entries).length ≤ 2147483647) :
    ∃ nindex nsize, expandedSize t = some (nindex, nsize) ∧ nindex < 29 ∧
      primeTab[nindex]?.map PrimeEnt.prime = some nsize ∧ 2 * (live t.entries).length ≤ nsize := by
  rw [HashTable.expandedSize, h.htabElements_eq]
  by_cases hresize : (live t.entries).length * 2 > t.size ∨ (live t.entries).length * 8 < t.size ∧ t.size > 32
  · obtain ⟨i, p, hindex, hlt, hget, hle⟩ :=
      @higherPrimeIndex_spec ((live t.entries).length * 2) (by omega)
    rw [if_pos hresize, hindex]
    simp only [Option.bind_eq_bind, Option.bind_some, hget]
    exact ⟨i, p.prime, rfl, hlt, by rw [hget, Option.map_some], by omega⟩
  · rw [if_neg hresize]
    exact ⟨t.sizePrimeIndex, t.size, rfl, h.lt, h.prime, by omega⟩

/-- **A table that is being filled again** with the entries `es`. -/
structure Refilled (key : E → K) (hash : K → UInt32) (t : Htab E) (es : List E) : Prop extends Shape t where
  placed : Placed key (fun k => places t.size (hash k)) t.entries
  perm : (live t.entries).Perm es
  deletions : deletions t.entries = 0

/-- **One entry is put in again**: `find_empty_slot_for_expand` meets no deleted slot, and finds an empty one. -/
theorem Refilled.reinsert {es : List E} (h : Refilled key hash t es) (hroom : es.length < t.size)
    (habsent : key e ∉ es.map key) :
    ∃ t', reinsert (hash ∘ key) t (.entry e) = some t' ∧ Refilled key hash t' (e :: es) ∧ t'.size = t.size ∧
      t'.sizePrimeIndex = t.sizePrimeIndex ∧ t'.nElements = t.nElements ∧ t'.nDeleted = t.nDeleted := by
  have hlength := h.perm.length_eq
  have hdeletions := h.deletions
  obtain ⟨i, hi, hempty, hbefore⟩ := h.exists_first (by omega) (hash (key e)) (· = some .empty) rfl
  have hagain : ∀ j < i, emptySlotPass t (1 + (hash (key e)).toNat % (t.size - 2)) (places t.size (hash (key e)) j) =
      .again (places t.size (hash (key e)) (j + 1)) := by
    intro j hj
    obtain ⟨s, hs⟩ := h.exists_slot (hash (key e)) j
    rw [emptySlotPass, hs]
    cases s with
    | empty => exact absurd hs (hbefore j hj)
    | deleted =>
        have hpos : 0 < Probing.deletions t.entries := List.countP_pos_iff.mpr ⟨_, List.mem_of_getElem? hs, rfl⟩
        omega
    | entry e' => rw [← h.nextIndex_eq]
  have hleave : emptySlotPass t (1 + (hash (key e)).toNat % (t.size - 2)) (places t.size (hash (key e)) i) =
      .leave (some (places t.size (hash (key e)) i)) := by
    rw [emptySlotPass, hempty]
  have hfind : findEmptySlotForExpand t (hash (key e)) = some (places t.size (hash (key e)) i) := by
    rw [findEmptySlotForExpand, h.htabMod_eq, h.htabModM2_eq]
    simp only [Option.bind_eq_bind, Option.bind_some]
    exact congrArg Option.join (loopRun_numbered hagain hleave hi)
  have hnone : (live t.entries).find? (fun e' => decide (key e' = key e)) = none := by
    rw [List.find?_eq_none]
    intro e' he' hkey
    exact habsent (List.mem_map.mpr ⟨e', h.perm.mem_iff.mp he', of_decide_eq_true hkey⟩)
  obtain ⟨hplaced, -⟩ := h.placed.put h.placed.represents_find hempty rfl hbefore hnone
  obtain ⟨rest, hperm, hset⟩ := live_set hempty
  refine ⟨{ t with entries := t.entries.set (places t.size (hash (key e)) i) (.entry e) }, ?_,
    ⟨⟨h.lt, h.prime, List.length_set.trans h.length⟩, hplaced, ?_, ?_⟩, rfl, rfl, rfl, rfl⟩
  · rw [HashTable.reinsert, Function.comp_apply, hfind]
    rfl
  · exact (hset (.entry e)).trans ((hperm.symm.trans h.perm).cons e)
  · exact (deletions_set hempty (.entry e)).trans hdeletions

/-- **All entries are put in again.** -/
theorem Refilled.foldlM {es : List E} (h : Refilled key hash t es) (slots : List (Slot E))
    (hroom : es.length + (live slots).length < t.size) (hnodup : ((live slots).map key ++ es.map key).Nodup) :
    ∃ t', slots.foldlM (HashTable.reinsert (hash ∘ key)) t = some t' ∧
      (∃ es', Refilled key hash t' es' ∧ es'.Perm (live slots ++ es)) ∧ t'.nElements = t.nElements ∧
        t'.nDeleted = t.nDeleted ∧ t'.size = t.size := by
  induction slots generalizing t es with
  | nil => exact ⟨t, rfl, ⟨es, h, List.Perm.refl es⟩, rfl, rfl, rfl⟩
  | cons s slots ih =>
      have hskip : s.content = none → HashTable.reinsert (hash ∘ key) t s = some t → live (s :: slots) = live slots →
          ∃ t', (s :: slots).foldlM (HashTable.reinsert (hash ∘ key)) t = some t' ∧
            (∃ es', Refilled key hash t' es' ∧ es'.Perm (live (s :: slots) ++ es)) ∧ t'.nElements = t.nElements ∧
              t'.nDeleted = t.nDeleted ∧ t'.size = t.size := by
        intro _ hreinsert hlive
        rw [hlive] at hroom hnodup ⊢
        rw [List.foldlM_cons, hreinsert]
        exact ih h hroom hnodup
      cases s with
      | empty => exact hskip rfl rfl rfl
      | deleted => exact hskip rfl rfl rfl
      | entry e =>
          have hlive : live (.entry e :: slots) = e :: live slots := rfl
          rw [hlive, List.length_cons] at hroom
          rw [hlive, List.map_cons, List.cons_append, List.nodup_cons, List.mem_append, not_or] at hnodup
          obtain ⟨⟨hlater, hearlier⟩, hrest⟩ := hnodup
          obtain ⟨t', hreinsert, h', hsize, -, helements, hdeleted⟩ := h.reinsert (by omega) hearlier
          have hnodup' : ((live slots).map key ++ (e :: es).map key).Nodup := by
            rw [List.map_cons, List.perm_middle.nodup_iff, List.nodup_cons, List.mem_append, not_or]
            exact ⟨⟨hlater, hearlier⟩, hrest⟩
          have hroom' : (e :: es).length + (live slots).length < t'.size := by
            rw [hsize, List.length_cons]
            omega
          obtain ⟨t'', hfold, ⟨es', h'', hperm⟩, helements', hdeleted', hsize'⟩ := ih h' hroom' hnodup'
          refine ⟨t'', ?_, ⟨es', h'', hperm.trans ?_⟩, helements'.trans helements, hdeleted'.trans hdeleted,
            hsize'.trans hsize⟩
          · rw [List.foldlM_cons, hreinsert]
            exact hfold
          · rw [hlive]
            exact List.perm_middle

omit [DecidableEq K] in
theorem live_replicate (n : Nat) : live (List.replicate n (.empty : Slot E)) = [] := by
  rw [live, List.filterMap_eq_nil_iff]
  intro s hs
  rw [List.eq_of_mem_replicate hs]
  rfl

omit [DecidableEq K] in
theorem deletions_replicate (n : Nat) : deletions (List.replicate n (.empty : Slot E)) = 0 := by
  rw [deletions, List.countP_eq_zero]
  intro s hs
  rw [List.eq_of_mem_replicate hs]
  simp [Slot.isDeleted]

omit [DecidableEq K] in
/-- A table without entries. -/
theorem refilled_replicate {index size n d : Nat} (hlt : index < 29)
    (hprime : primeTab[index]?.map PrimeEnt.prime = some size) :
    Refilled key hash (⟨List.replicate size .empty, size, n, d, index⟩ : Htab E) [] := by
  refine ⟨⟨hlt, hprime, List.length_replicate⟩, ⟨fun e he => ?_, ?_⟩, ?_, deletions_replicate size⟩
  · rw [live_replicate] at he
    cases he
  · rw [live_replicate]
    exact List.nodup_nil
  · rw [live_replicate]

omit [DecidableEq K] in
/-- A table that is filled again represents the same map. -/
theorem Refilled.table {es : List E} (h : Refilled key hash t es) (hm : ∀ k e, m k = some e ↔ e ∈ es ∧ key e = k)
    (hroom : es.length < t.size) (hn : t.nElements = es.length) (hd : t.nDeleted = 0) : Table key hash t m := by
  refine ⟨h.toShape, h.placed, fun k e => ?_, ?_, ?_, ?_⟩
  · rw [hm, h.perm.mem_iff]
  · rw [hn, h.deletions, h.perm.length_eq, Nat.add_zero]
  · rw [hd, h.deletions]
  · rw [hn]
    exact hroom

/-- **`htab_expand`** keeps the map, drops the marks, and leaves at least half of the table empty. -/
theorem Table.htabExpand (h : Table key hash t m) (hlive : 2 * (live t.entries).length ≤ 2147483647) :
    ∃ t', htabExpand (hash ∘ key) t = some t' ∧ Table key hash t' m ∧ t'.nElements = (live t.entries).length ∧
      t'.nDeleted = 0 ∧ 2 * (live t.entries).length ≤ t'.size := by
  obtain ⟨nindex, nsize, hsize, hlt, hprime, hle⟩ := h.expandedSize hlive
  have hstart := @refilled_replicate E K key hash nindex nsize (t.nElements - t.nDeleted) 0 hlt hprime
  have hseven : 7 ≤ nsize := hstart.seven_le
  have hroom : (live t.entries).length < nsize := by omega
  obtain ⟨t', hfold, ⟨es, h', hperm⟩, helements, hdeleted, hsize'⟩ := hstart.foldlM t.entries
    (by simpa using hroom) (by simpa using h.placed.nodup)
  rw [List.append_nil] at hperm
  have hcount : t'.nElements = (live t.entries).length := helements.trans h.htabElements_eq
  have hsize'' : t'.size = nsize := hsize'
  refine ⟨t', ?_, h'.table (fun k e => ?_) ?_ ?_ hdeleted, hcount, hdeleted, ?_⟩
  · rw [HashTable.htabExpand, hsize]
    exact hfold
  · rw [h.represents, hperm.mem_iff]
  · rw [hperm.length_eq, hsize'']
    exact hroom
  · rw [hcount, hperm.length_eq]
  · rw [hsize'']
    exact hle

/-! ## Inserting -/

/-- What a caller of `htab_find_slot_with_hash` does with `INSERT`: it reads the slot, and writes `f` of what is there. -/
def storeElt (hashF : E → UInt32) (t : Htab E) (eqF : E → Bool) (hash : UInt32) (f : Option E → E) :
    Option (Htab E × Option E) := do
  let (t, slot) ← htabFindSlotWithHash hashF t eqF hash true
  let slot ← slot
  match ← t.entries[slot]? with
  | .deleted => none
  | x => some ({ t with entries := t.entries.set slot (.entry (f x.content)) }, x.content)

/-- The table in which `htab_find_slot_with_hash` searches before an insertion: it has room for one more entry. -/
theorem Table.expandForInsert (h : Table key hash t m) (hlive : 2 * (live t.entries).length ≤ 2147483647) :
    ∃ t', expandIfFull (hash ∘ key) t true = some t' ∧ Table key hash t' m ∧ t'.nElements + 1 < t'.size ∧
      (live t'.entries).length = (live t.entries).length := by
  by_cases hfull : t.size * 3 ≤ t.nElements * 4
  · obtain ⟨t', hexpand, h', helements, hdeleted, hhalf⟩ := h.htabExpand hlive
    have hseven := h'.seven_le
    have hcount := h'.nElements
    have hmarks := h'.nDeleted
    exact ⟨t', (if_pos ⟨rfl, hfull⟩).trans hexpand, h', by omega, by omega⟩
  · have hseven := h.seven_le
    exact ⟨t, if_neg fun hinsert => hfull hinsert.2, h, by omega, rfl⟩

/-- An entry is written into the slot of one with the same key. -/
theorem Table.storeReplace (h : Table key hash t m) {n : Nat} {old : E} (hslot : t.entries[n]? = some (.entry old))
    (hkey : key e = key old) :
    Table key hash { t with entries := t.entries.set n (.entry e) } (Function.update m (key e) (some e)) ∧
      (live (t.entries.set n (.entry e))).length = (live t.entries).length := by
  obtain ⟨hplaced, hrepresents⟩ := h.placed.replace h.represents hslot hkey
  have hlive : (live (t.entries.set n (.entry e))).length = (live t.entries).length :=
    Nat.succ.inj (length_live_set hslot (.entry e))
  have hdeletions : deletions (t.entries.set n (.entry e)) = deletions t.entries := deletions_set hslot (.entry e)
  refine ⟨⟨⟨h.lt, h.prime, List.length_set.trans h.length⟩, hplaced, hrepresents, ?_, ?_, h.room⟩, hlive⟩
  · show t.nElements = (live (t.entries.set n (.entry e))).length + deletions (t.entries.set n (.entry e))
    rw [h.nElements, hlive, hdeletions]
  · show t.nDeleted = deletions (t.entries.set n (.entry e))
    rw [h.nDeleted, hdeletions]

/-- An entry is written into a slot that had none. -/
theorem Table.storeNew (h : Table key hash t m) {i : Nat} {s : Slot E}
    (hslot : t.entries[places t.size (hash (key e)) i]? = some s) (hfree : s.content = none)
    (hbefore : ∀ j < i, t.entries[places t.size (hash (key e)) j]? ≠ some .empty) (habsent : m (key e) = none)
    {n d : Nat} (hn : n + (if s.isDeleted then 1 else 0) = t.nElements + 1)
    (hd : d + (if s.isDeleted then 1 else 0) = t.nDeleted) (hroom : n < t.size) :
    Table key hash
        { t with
          entries := t.entries.set (places t.size (hash (key e)) i) (.entry e), nElements := n, nDeleted := d }
        (Function.update m (key e) (some e)) ∧
      (live (t.entries.set (places t.size (hash (key e)) i) (.entry e))).length = (live t.entries).length + 1 := by
  obtain ⟨hplaced, hrepresents⟩ := h.placed.put h.represents hslot hfree hbefore habsent
  have hlive : (live (t.entries.set (places t.size (hash (key e)) i) (.entry e))).length =
      (live t.entries).length + 1 := by
    have hlength := length_live_set hslot (.entry e)
    rw [hfree] at hlength
    exact hlength
  have hdeletions : deletions (t.entries.set (places t.size (hash (key e)) i) (.entry e)) +
      (if s.isDeleted then 1 else 0) = deletions t.entries := deletions_set hslot (.entry e)
  have helements := h.nElements
  have hmarks := h.nDeleted
  refine ⟨⟨⟨h.lt, h.prime, List.length_set.trans h.length⟩, hplaced, hrepresents, ?_, ?_, hroom⟩, hlive⟩
  · show n = (live (t.entries.set (places t.size (hash (key e)) i) (.entry e))).length +
      deletions (t.entries.set (places t.size (hash (key e)) i) (.entry e))
    omega
  · show d = deletions (t.entries.set (places t.size (hash (key e)) i) (.entry e))
    omega

/-- **`htab_find_slot_with_hash` with `INSERT`**, and the store of the caller: the map has the new entry at its key. -/
theorem Table.storeElt (h : Table key hash t m) (hlive : 2 * (live t.entries).length ≤ 2147483647) (k : K)
    (f : Option E → E) (hf : ∀ old, (∀ e ∈ old, key e = k) → key (f old) = k) :
    ∃ t', storeElt (hash ∘ key) t (fun e => key e = k) (hash k) f = some (t', m k) ∧
      Table key hash t' (Function.update m k (some (f (m k)))) ∧
        (live t'.entries).length ≤ (live t.entries).length + 1 := by
  obtain ⟨t₁, hexpand, h₁, hroom, hlength⟩ := h.expandForInsert hlive
  obtain ⟨probed, hprobe, hprobed⟩ := h₁.probeSlot k
  have hfind : htabFindSlotWithHash (hash ∘ key) t (fun e => key e = k) (hash k) true =
      some (takeSlot t₁ true probed) := by
    rw [htabFindSlotWithHash, hexpand]
    simp only [Option.bind_eq_bind, Option.bind_some, hprobe]
  rw [HashTable.storeElt, hfind]
  cases hprobed with
  | @found n e hslot hkey hm =>
      rw [hm]
      have hf' : key (f (some e)) = k := hf (some e) fun e' he' => Option.some.inj he' ▸ hkey
      obtain ⟨htable, hlive'⟩ := h₁.storeReplace hslot (hf'.trans hkey.symm)
      rw [hf'] at htable
      refine ⟨{ t₁ with entries := t₁.entries.set n (.entry (f (some e))) }, ?_, htable, ?_⟩
      · simp only [takeSlot, Option.bind_eq_bind, Option.bind_some, hslot, Slot.content_entry]
      · show (live (t₁.entries.set n (.entry (f (some e))))).length ≤ _
        omega
  | @absent n i d hm hplace hbefore hslot =>
      rw [hm]
      have hkey : key (f none) = k := hf none fun e he => nomatch he
      subst hkey
      cases d with
      | none =>
          have hplace' : places t₁.size (hash (key (f none))) i = n := hplace
          have hslot' : t₁.entries[n]? = some .empty := hslot
          rw [← hplace'] at hslot' ⊢
          obtain ⟨htable, hlive'⟩ := @Table.storeNew _ _ _ _ _ _ (f none) _ h₁ i .empty hslot' rfl hbefore hm
            (t₁.nElements + 1) t₁.nDeleted rfl rfl hroom
          refine ⟨_, ?_, htable, ?_⟩
          · simp only [takeSlot, Option.bind_eq_bind, Option.bind_some, hslot', Slot.content_empty, Bool.not_true,
              Bool.false_eq_true, if_false]
          · show (live (t₁.entries.set _ (.entry (f none)))).length ≤ _
            omega
      | some d =>
          have hplace' : places t₁.size (hash (key (f none))) i = d := hplace
          have hslot' : t₁.entries[d]? = some .deleted := hslot
          rw [← hplace'] at hslot' ⊢
          have hpos : 0 < t₁.nDeleted := by
            rw [h₁.nDeleted]
            exact List.countP_pos_iff.mpr ⟨_, List.mem_of_getElem? hslot', rfl⟩
          have hlt := (List.getElem?_eq_some_iff.mp hslot').1
          obtain ⟨htable, hlive'⟩ := @Table.storeNew _ _ _ _ _ _ (f none) _ h₁ i .deleted hslot' rfl hbefore hm
            t₁.nElements (t₁.nDeleted - 1) rfl (Nat.sub_add_cancel hpos) h₁.room
          refine ⟨_, ?_, htable, ?_⟩
          · simp only [takeSlot, Option.bind_eq_bind, Option.bind_some, List.getElem?_set_self hlt, Slot.content_empty,
              Bool.not_true, Bool.false_eq_true, if_false, List.set_set]
          · show (live (t₁.entries.set _ (.entry (f none)))).length ≤ _
            omega

end HashTable

end GccXml
