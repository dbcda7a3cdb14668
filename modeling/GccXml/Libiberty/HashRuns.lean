import GccXml.Libiberty.HashSearch

namespace GccXml

/-! # `Libiberty.HashRuns` — whole lives of a hash table

A table that is created empty and is used in any order behaves as a finite map, through all rehashing. Only the removal
of an element that is not there goes wrong, although the comment on `htab_remove_elt` promises that it does nothing.

A use of a table is a `Call`, one constructor for each function of `hashtab.c` that callers have, and it means an
answer and a change of a map. From `Table` of `HashSearch`, that a table represents a map and its counts are right, the
calls follow one by one: the answer is that of the map, and the table after it represents the map after it. The clean-
up functions call `del_f` once for every entry.

A bound has to go through a run: a table can be expanded as long as twice its live entries are fewer than `2 ^ 31`.
`StaysSmall` says this of the maps that the calls go through, which is the condition of the theorem; that a short list
of calls meets it is a corollary. A call of `htab_remove_elt` for a missing element follows the null pointer that
`htab_find_slot_with_hash` gives, and there the run ends. -/

namespace HashTable

open Probing

variable {E K : Type}

/-! ## Uses of a table -/

/-- A use of a table. `store` and `clear` are what callers do with the slot that `htab_find_slot` gives them: the first
    writes an entry with the key of the slot, the second calls `htab_clear_slot`. -/
inductive Call (key : E → K) where
  | find (k : K)
  | store (k : K) (f : Option E → { e : E // key e = k })
  | clear (k : K)
  | remove (k : K)
  | empty
  | traverse

/-- What a use of a table gives: an entry, or what a traversal came across. -/
inductive Answer (E : Type) where
  | entry (e : Option E)
  | entries (es : List E)

section

variable [DecidableEq K] (key : E → K) (hash : K → UInt32)

/-- What a call does to the table, and what it answers. -/
def call (t : Htab E) : Call key → Option (Htab E × Answer E)
  | .find k => (htabFindWithHash t (fun e => key e = k) (hash k)).map fun e => (t, .entry e)
  | .store k f =>
      (storeElt (hash ∘ key) t (fun e => key e = k) (hash k) fun old => (f old).1).map fun (t, old) => (t, .entry old)
  | .clear k => do
      let (t, slot) ← htabFindSlotWithHash (hash ∘ key) t (fun e => key e = k) (hash k) false
      match slot with
      | none => some (t, .entry none)
      | some slot => (htabClearSlot t slot).map fun (t, e) => (t, .entry e)
  | .remove k =>
      (htabRemoveEltWithHash (hash ∘ key) t (fun e => key e = k) (hash k)).map fun (t, e) => (t, .entry e)
  | .empty => (htabEmpty t).map fun t' => (t', .entries (deletedEntries t))
  | .traverse => (htabTraverse (hash ∘ key) (fun e es => (es ++ [e], true)) t []).map fun (t, es) => (t, .entries es)

/-- What a sequence of calls does to the table, and what they answer. -/
def calls (t : Htab E) : List (Call key) → Option (Htab E × List (Answer E))
  | [] => some (t, [])
  | c :: cs => do
      let (t, answer) ← call key hash t c
      let (t, answers) ← calls t cs
      some (t, answer :: answers)

end

/-! ## What they mean for a map -/

section

variable {key : E → K}

/-- The entries of a map, each once. -/
def Lists (key : E → K) (m : K → Option E) (es : List E) : Prop :=
  (es.map key).Nodup ∧ ∀ k e, m k = some e ↔ e ∈ es ∧ key e = k

variable [DecidableEq K]

/-- The map after a call. -/
def mapAfter (m : K → Option E) : Call key → K → Option E
  | .store k f => Function.update m k (some (f (m k)).1)
  | .clear k => Function.update m k none
  | .remove k => Function.update m k none
  | .empty => fun _ => none
  | _ => m

/-- What a call on a map answers. -/
def Answers1 (m : K → Option E) : Call key → Answer E → Prop
  | .find k, answer => answer = .entry (m k)
  | .store k _, answer => answer = .entry (m k)
  | .clear k, answer => answer = .entry (m k)
  | .remove k, answer => answer = .entry (m k)
  | .empty, answer => ∃ es, answer = .entries es ∧ Lists key m es
  | .traverse, answer => ∃ es, answer = .entries es ∧ Lists key m es

/-- Every call of a sequence is answered as one on the map that the calls before it have made. -/
def Answers : (K → Option E) → List (Call key) → List (Answer E) → Prop
  | _, [], answers => answers = []
  | m, c :: cs, answers => ∃ answer rest, answers = answer :: rest ∧ Answers1 m c answer ∧ Answers (mapAfter m c) cs rest

/-- A call only removes what is there. -/
def Removable (m : K → Option E) : Call key → Prop
  | .remove k => m k ≠ none
  | _ => True

/-- Every call of a sequence only removes what is there. -/
def RemovesPresent : (K → Option E) → List (Call key) → Prop
  | _, [] => True
  | m, c :: cs => Removable m c ∧ RemovesPresent (mapAfter m c) cs

/-- A map has room in a table of less than `2 ^ 31` slots, of which no more than half are filled when it is made. -/
def Fits (key : E → K) (m : K → Option E) : Prop := ∀ es, Lists key m es → 2 * es.length ≤ 2147483647

/-- The map has room before every call of a sequence. -/
def StaysSmall : (K → Option E) → List (Call key) → Prop
  | _, [] => True
  | m, c :: cs => Fits key m ∧ StaysSmall (mapAfter m c) cs

end

/-! ## One call -/

section

variable {key : E → K} {hash : K → UInt32} {t : Htab E} {m : K → Option E}

theorem Table.lists (h : Table key hash t m) : Lists key m (live t.entries) := ⟨h.placed.nodup, h.represents⟩

theorem Lists.perm {es es' : List E} (h : Lists key m es) (hperm : es'.Perm es) : Lists key m es' := by
  refine ⟨(hperm.map key).nodup_iff.mpr h.1, fun k e => ?_⟩
  rw [hperm.mem_iff]
  exact h.2 k e

/-- The empty map has no entries. -/
theorem lists_none {es : List E} (h : Lists key (fun _ => none) es) : es = [] :=
  List.eq_nil_iff_forall_not_mem.mpr fun e he => by cases (h.2 (key e) e).mpr ⟨he, rfl⟩

/-- A traversal comes across the entries of the table. -/
theorem visit_eq {σ : Type} (callback : E → σ → σ × Bool) (slots : List (Slot E)) (s : σ) :
    visit callback slots s = visit callback ((live slots).map .entry) s := by
  induction slots generalizing s with
  | nil => rfl
  | cons slot slots ih =>
      cases slot with
      | empty => exact ih s
      | deleted => exact ih s
      | entry e =>
          show visit callback (.entry e :: slots) s = visit callback (.entry e :: (live slots).map .entry) s
          rw [visit, visit]
          split
          · exact ih _
          · rfl

theorem visit_collect (es : List E) (s : List E) :
    visit (fun e es => (es ++ [e], true)) (es.map .entry) s = s ++ es := by
  induction es generalizing s with
  | nil => exact (List.append_nil s).symm
  | cons e es ih =>
      rw [List.map_cons, visit]
      dsimp only
      rw [ih, List.append_assoc, List.singleton_append]

/-- A new table has no entries. -/
theorem table_replicate {index size : Nat} (hlt : index < 29) (hprime : primeTab[index]?.map PrimeEnt.prime = some size) :
    Table key hash (⟨List.replicate size .empty, size, 0, 0, index⟩ : Htab E) fun _ => none := by
  have h := @refilled_replicate E K key hash index size 0 0 hlt hprime
  refine h.table (fun k e => iff_of_false nofun fun he => List.not_mem_nil he.1) ?_ rfl rfl
  exact Nat.lt_of_lt_of_le (Nat.zero_lt_succ 6) h.seven_le

/-- **`htab_create`** makes an empty table. -/
theorem htabCreate_spec (size : Nat) (hsize : size ≤ 2147483647) :
    ∃ t, htabCreate E size = some t ∧ Table key hash t fun _ => none := by
  obtain ⟨i, p, hindex, hlt, hget, -⟩ := higherPrimeIndex_spec hsize
  refine ⟨⟨List.replicate p.prime .empty, p.prime, 0, 0, i⟩, ?_, table_replicate hlt (by rw [hget, Option.map_some])⟩
  rw [htabCreate, hindex]
  simp only [Option.bind_eq_bind, Option.bind_some, hget]

/-- **`htab_empty`** empties the table, and gives every entry to `del_f` once. -/
theorem Table.htabEmpty (h : Table key hash t m) :
    ∃ t', htabEmpty t = some t' ∧ (Table key hash t' fun _ => none) ∧ Lists key m (deletedEntries t) := by
  have hdeleted : Lists key m (deletedEntries t) := by
    refine h.lists.perm ?_
    rw [deletedEntries, List.filterMap_reverse]
    exact List.reverse_perm _
  rw [HashTable.htabEmpty]
  by_cases hlarge : t.size > 1024 * 1024 / 8
  · obtain ⟨i, p, hindex, hlt, hget, -⟩ := @higherPrimeIndex_spec (1024 / 8) (by decide)
    rw [if_pos hlarge, hindex]
    simp only [Option.bind_eq_bind, Option.bind_some, hget]
    exact ⟨_, rfl, table_replicate hlt (by rw [hget, Option.map_some]), hdeleted⟩
  · rw [if_neg hlarge]
    exact ⟨_, rfl, table_replicate h.lt h.prime, hdeleted⟩

variable [DecidableEq K]

/-- **One call** answers as one on the map and leaves a table of the map after it, unless it removes what is not there. -/
theorem Table.call (h : Table key hash t m) (hlive : 2 * (live t.entries).length ≤ 2147483647) (c : Call key) :
    (Removable m c → ∃ t' answer, call key hash t c = some (t', answer) ∧ Table key hash t' (mapAfter m c) ∧
      Answers1 m c answer) ∧ (¬ Removable m c → HashTable.call key hash t c = none) := by
  cases c with
  | find k =>
      refine ⟨fun _ => ⟨t, .entry (m k), ?_, h, rfl⟩, fun hno => absurd trivial hno⟩
      rw [HashTable.call, h.htabFindWithHash, Option.map_some]
  | store k f =>
      refine ⟨fun _ => ?_, fun hno => absurd trivial hno⟩
      obtain ⟨t', hstore, h', -⟩ := h.storeElt hlive k (fun old => (f old).1) fun old _ => (f old).2
      refine ⟨t', .entry (m k), ?_, h', rfl⟩
      rw [HashTable.call, hstore, Option.map_some]
  | clear k =>
      refine ⟨fun _ => ?_, fun hno => absurd trivial hno⟩
      rw [HashTable.call]
      obtain ⟨n, e, hfind, hslot, rfl, hm⟩ | ⟨hfind, hm⟩ := h.findSlot_noInsert k
      · refine ⟨HashTable.markDeleted t n, .entry (some e), ?_, h.markDeleted hslot, congrArg Answer.entry hm.symm⟩
        rw [hfind]
        simp only [Option.bind_eq_bind, Option.bind_some, htabClearSlot, hslot, Option.map_some]
      · refine ⟨t, .entry none, ?_, ?_, congrArg Answer.entry hm.symm⟩
        · rw [hfind]
          rfl
        · show Table key hash t (Function.update m k none)
          rw [← hm, Function.update_eq_self]
          exact h
  | remove k =>
      have hremove := h.htabRemoveEltWithHash k
      rw [HashTable.call]
      cases hm : m k with
      | none =>
          rw [hm] at hremove
          refine ⟨fun hsome => absurd hm hsome, fun _ => ?_⟩
          rw [hremove, Option.map_none]
      | some e =>
          rw [hm] at hremove
          obtain ⟨t', hremove, h'⟩ := hremove
          refine ⟨fun _ => ⟨t', .entry (some e), ?_, h', congrArg Answer.entry hm.symm⟩, fun hno => ?_⟩
          · rw [hremove, Option.map_some]
          · exact absurd (fun hnone => by rw [hm] at hnone; cases hnone) hno
  | empty =>
      refine ⟨fun _ => ?_, fun hno => absurd trivial hno⟩
      obtain ⟨t', hempty, h', hdeleted⟩ := h.htabEmpty
      refine ⟨t', .entries (deletedEntries t), ?_, h', ⟨_, rfl, hdeleted⟩⟩
      rw [HashTable.call, hempty, Option.map_some]
  | traverse =>
      refine ⟨fun _ => ?_, fun hno => absurd trivial hno⟩
      have hvisit : ∀ t' : Htab E, visit (fun e es => (es ++ [e], true)) t'.entries [] = live t'.entries := fun t' => by
        rw [visit_eq, visit_collect, List.nil_append]
      rw [HashTable.call, htabTraverse]
      split_ifs with hsparse
      · obtain ⟨t', hexpand, h', -⟩ := h.htabExpand hlive
        rw [hexpand]
        refine ⟨t', .entries (live t'.entries), ?_, h', ⟨_, rfl, h'.lists⟩⟩
        simp only [Option.bind_eq_bind, Option.bind_some, Option.map_some, hvisit]
      · refine ⟨t, .entries (live t.entries), ?_, h, ⟨_, rfl, h.lists⟩⟩
        simp only [Option.bind_eq_bind, Option.bind_some, Option.map_some, hvisit]

/-- **Every sequence of calls** answers as one on the map, or removes what is not there and ends in a null pointer. -/
theorem Table.calls (h : Table key hash t m) (cs : List (Call key)) (hsmall : StaysSmall m cs) :
    (RemovesPresent m cs → ∃ t' answers, calls key hash t cs = some (t', answers) ∧
      Table key hash t' (cs.foldl mapAfter m) ∧ Answers m cs answers) ∧
      (¬ RemovesPresent m cs → HashTable.calls key hash t cs = none) := by
  induction cs generalizing t m with
  | nil => exact ⟨fun _ => ⟨t, [], rfl, h, rfl⟩, fun hno => absurd trivial hno⟩
  | cons c cs ih =>
      obtain ⟨hfits, hlater⟩ := hsmall
      obtain ⟨hpresent, habsent⟩ := h.call (hfits _ h.lists) c
      by_cases hremovable : Removable m c
      · obtain ⟨t', answer, hcall, h', hanswer⟩ := hpresent hremovable
        obtain ⟨hrest, hfail⟩ := ih h' hlater
        constructor
        · intro hall
          obtain ⟨t'', answers, hcalls, h'', hanswers⟩ := hrest hall.2
          refine ⟨t'', answer :: answers, ?_, h'', _, _, rfl, hanswer, hanswers⟩
          rw [HashTable.calls, hcall]
          simp only [Option.bind_eq_bind, Option.bind_some, hcalls]
        · intro hno
          rw [HashTable.calls, hcall]
          simp only [Option.bind_eq_bind, Option.bind_some, hfail fun hall => hno ⟨hremovable, hall⟩, Option.bind_none]
      · refine ⟨fun hall => absurd hall.1 hremovable, fun _ => ?_⟩
        rw [HashTable.calls, habsent hremovable]
        rfl

end

/-! ## The places of the code -/

/-- **`htab_mod` and `htab_mod_m2`** multiply and shift instead of dividing, and compute the remainders by the prime of the
    table and by two less than it: for every prime of the table and every hash value. -/
theorem htabMod_is_remainder (t : Htab E) (hash : UInt32) {p : PrimeEnt} (hp : primeTab[t.sizePrimeIndex]? = some p) :
    t.htabMod hash = some (hash.toNat % p.prime) ∧ t.htabModM2 hash = some (1 + hash.toNat % (p.prime - 2)) := by
  have hmem := List.mem_of_getElem? hp
  obtain ⟨hprime, hm2⟩ := htabMod1_primeTab hmem hash
  obtain ⟨-, -, hlt, hseven⟩ := primeTab_divides p hmem
  have hmod : hash.toNat % (p.prime - 2) < p.prime - 2 := Nat.mod_lt _ (by omega)
  constructor
  · rw [Htab.htabMod, hp, Option.map_some, hprime]
  · rw [Htab.htabModM2, hp, Option.map_some, hm2, Nat.mod_eq_of_lt (by omega)]

/-- In a table of 127 slots. -/
theorem htabMod_is_remainder_127 :
    (⟨[], 127, 0, 0, 4⟩ : Htab Nat).htabMod 0xfffffffe = some (0xfffffffe % 127) :=
  (htabMod_is_remainder (⟨[], 127, 0, 0, 4⟩ : Htab Nat) 0xfffffffe rfl).1

/-! ## Whole lives -/

section

variable {key : E → K} [DecidableEq K] {m : K → Option E}

/-- Every entry of a map is under its own key. -/
def Keyed (key : E → K) (m : K → Option E) : Prop := ∀ k e, m k = some e → key e = k

theorem Keyed.mapAfter (h : Keyed key m) (c : Call key) : Keyed key (mapAfter m c) := by
  have hupdate : ∀ k (v : Option E), (∀ e, v = some e → key e = k) → Keyed key (Function.update m k v) := by
    intro k v hv k' e he
    by_cases hk : k' = k
    · subst hk
      rw [Function.update_self] at he
      exact hv e he
    · rw [Function.update_of_ne hk] at he
      exact h k' e he
  cases c with
  | find k => exact h
  | store k f => exact hupdate k _ fun e he => Option.some.inj he ▸ (f (m k)).2
  | clear k => exact hupdate k none nofun
  | remove k => exact hupdate k none nofun
  | empty => exact fun k e he => by cases he
  | traverse => exact h

/-- The entries of a map after its value for one key was changed are no more than those before, but for one. -/
theorem Lists.length_update_le {k : K} {v : Option E} {n : Nat} (hm : Keyed key m)
    (hn : ∀ es, Lists key m es → es.length ≤ n) {es : List E} (h : Lists key (Function.update m k v) es) :
    es.length ≤ n + 1 := by
  -- the entries with other keys, and the old one for the key, are those of `m`
  have hothers : Lists key m (es.filter (fun e => key e ≠ k) ++ (m k).toList) := by
    constructor
    · rw [List.map_append, List.nodup_append]
      refine ⟨(List.filter_sublist.map key).nodup h.1, ?_, ?_⟩
      · cases m k with
        | none => exact List.nodup_nil
        | some e => exact List.nodup_singleton _
      · rintro _ ha _ hb rfl
        obtain ⟨e, he, heq⟩ := List.mem_map.mp ha
        obtain ⟨e', he', heq'⟩ := List.mem_map.mp hb
        have hk : key e' = k := hm k e' (Option.mem_toList.mp he')
        exact of_decide_eq_true (List.mem_filter.mp he).2 (heq.trans (heq'.symm.trans hk))
    · intro k' e
      have hlist := h.2 k' e
      rw [List.mem_append, List.mem_filter, Option.mem_toList, decide_eq_true_eq]
      by_cases hk : k' = k
      · subst hk
        constructor
        · exact fun he => ⟨.inr he, hm k' e he⟩
        · rintro ⟨⟨-, hne⟩ | he, hkey⟩
          · exact absurd hkey hne
          · exact he
      · rw [Function.update_of_ne hk] at hlist
        rw [hlist]
        constructor
        · rintro ⟨hmem, hkey⟩
          exact ⟨.inl ⟨hmem, fun heq => hk (hkey.symm.trans heq)⟩, hkey⟩
        · rintro ⟨⟨hmem, -⟩ | he, hkey⟩
          · exact ⟨hmem, hkey⟩
          · exact absurd (hkey.symm.trans (hm k e he)) hk
  have hle := hn _ hothers
  rw [List.length_append] at hle
  have hsplit := @List.length_eq_countP_add_countP _ (fun e => decide (key e = k)) es
  have honce : es.countP (fun e => key e = k) ≤ 1 := by
    have hcount := List.nodup_iff_count_le_one.mp h.1 k
    rw [List.count_eq_countP, List.countP_map] at hcount
    exact hcount
  have hfilter : es.countP (fun e => decide ¬ (decide (key e = k)) = true) = (es.filter fun e => key e ≠ k).length := by
    simp only [decide_eq_true_eq, List.countP_eq_length_filter]
  omega

/-- **Few calls** leave few entries: each makes one at most. -/
theorem staysSmall_of_length {n : Nat} (hm : Keyed key m) (hn : ∀ es, Lists key m es → es.length ≤ n) (cs : List (Call key))
    (hcalls : 2 * (n + cs.length) ≤ 2147483647) : StaysSmall m cs := by
  induction cs generalizing m n with
  | nil => trivial
  | cons c cs ih =>
      rw [List.length_cons] at hcalls
      have hafter : ∀ es, Lists key (mapAfter m c) es → es.length ≤ n + 1 := by
        intro es hes
        cases c with
        | find k => exact Nat.le_succ_of_le (hn es hes)
        | store k f => exact hes.length_update_le hm hn
        | clear k => exact hes.length_update_le hm hn
        | remove k => exact hes.length_update_le hm hn
        | empty =>
            rw [lists_none hes]
            exact Nat.zero_le _
        | traverse => exact Nat.le_succ_of_le (hn es hes)
      refine ⟨fun es hes => ?_, ih (hm.mapAfter c) hafter (by omega)⟩
      have hle := hn es hes
      omega

end

/-- **A hash table is a finite map.** From `htab_create` on, every call of every sequence is answered as one on the map that
    the calls before it have made, through all searches, insertions, deletions and rehashing; and the sequence runs to its
    end if and only if it never calls `htab_remove_elt` for an element that is not in the table. There must be room for
    the entries in a table of less than `2 ^ 31` slots, however many calls there are. -/
theorem hash_table_is_map [DecidableEq K] (key : E → K) (hash : K → UInt32) {size : Nat} (hsize : size ≤ 2147483647)
    (cs : List (Call key)) (hsmall : StaysSmall (fun _ => none) cs) :
    ∃ t, htabCreate E size = some t ∧
      (RemovesPresent (fun _ => none) cs → ∃ t' answers, calls key hash t cs = some (t', answers) ∧
        Answers (fun _ => none) cs answers) ∧
      (¬ RemovesPresent (fun _ => none) cs → calls key hash t cs = none) := by
  obtain ⟨t, hcreate, h⟩ := @htabCreate_spec E K key hash size hsize
  obtain ⟨hpresent, habsent⟩ := h.calls cs hsmall
  refine ⟨t, hcreate, fun hall => ?_, habsent⟩
  obtain ⟨t', answers, hrun, -, hanswers⟩ := hpresent hall
  exact ⟨t', answers, hrun, hanswers⟩

/-- Some uses of a table of numbers under names. -/
def nameCalls : List (Call (Prod.fst : List Char × Nat → List Char)) :=
  [.store ['a'] fun _ => ⟨(['a'], 1), rfl⟩, .find ['a'], .remove ['a'], .find ['a'], .traverse]

theorem hash_table_is_map_names :
    RemovesPresent (fun _ => none) nameCalls ∧ ∃ t, htabCreate (List Char × Nat) 37 = some t ∧
      ∃ t' answers, calls Prod.fst htabHashString t nameCalls = some (t', answers) ∧
        Answers (fun _ => none) nameCalls answers := by
  have hremoves : RemovesPresent (fun _ => none) nameCalls := by
    refine ⟨trivial, trivial, ?_, trivial, trivial, trivial⟩
    show some (['a'], 1) ≠ none
    exact Option.some_ne_none _
  have hsmall : StaysSmall (fun _ => none) nameCalls := by
    refine staysSmall_of_length (fun k e he => by cases he) (fun es hes => ?_) nameCalls (by decide : 2 * (0 + 5) ≤ 2147483647)
    rw [lists_none hes, List.length_nil]
  obtain ⟨t, hcreate, hpresent, -⟩ := hash_table_is_map (Prod.fst : List Char × Nat → List Char) htabHashString
    (show 37 ≤ 2147483647 by decide) nameCalls hsmall
  exact ⟨hremoves, t, hcreate, hpresent hremoves⟩

end HashTable

end GccXml
