import GccXml.Lib.Chain
import GccXml.Lib.Loop
import GccXml.Xml.CompletePhase
import Mathlib.Data.List.Perm.Basic

namespace GccXml

/-! # `Xml.DumpQueue` — the queue of nodes in memory

The queue of `xml_dump` is a chain of cells with a pointer to its last one, and the cells that were taken from it form
a second chain, from which `xml_queue_node` takes them again. A cell is free before its node is printed, so it may hold
the next node that the printing queues. Every step moves one cell from one chain to the other, by way of a moment in
which it is in neither.

`Represents` gives the two chains as lists of cells. They have no cell in common, and together with those on their way
(`loose`) they are all that was ever allocated. The two operations are cut where a cell is loose: it is filled and
linked in `xml_queue_node`, and it is removed and recycled in the loop of `xml_dump`. Each of these four parts is
one lemma about one or two pointer writes, and no later proof looks at a pointer.

`Holds` forgets the cells: the queue has these entries, in this order. On it a step is an element added at the end or
taken from the front, so a run of any length and any interleaving keeps the history equal to what was removed followed
by what waits. The last part connects this with `xml_dump` on lists, from which every run of the dump is one of these.
-/

open Chain

/-- `struct xml_dump_queue`. -/
structure QueueCell (T D : Type) where
  treeNode : T
  dumpNode : D
  next : Option Nat

/-- The cells from `xmalloc`, and the members of `struct xml_dump_info` that point to them. -/
structure DumpQueue (T D : Type) where
  cells : List (QueueCell T D) := []
  queue : Option Nat := none
  queueEnd : Option Nat := none
  queueFree : Option Nat := none

namespace DumpQueue

variable {T D : Type}

/-! ## The code -/

/-- `dq->next`, of a cell. -/
def next (s : DumpQueue T D) (dq : Nat) : Option Nat := s.cells[dq]?.bind QueueCell.next

/-- What a cell was queued for. -/
def entryAt (s : DumpQueue T D) (dq : Nat) : Option (T × D) := s.cells[dq]?.map fun cell => (cell.treeNode, cell.dumpNode)

/-- Write to a cell, if the pointer is one to a cell. -/
def modifyCell (s : DumpQueue T D) (dq : Nat) (f : QueueCell T D → QueueCell T D) : Option (DumpQueue T D) :=
  if dq < s.cells.length then some { s with cells := s.cells.modify dq f } else none

/-- `dq->next = p`. -/
def setNext (s : DumpQueue T D) (dq : Nat) (p : Option Nat) : Option (DumpQueue T D) :=
  s.modifyCell dq fun cell => { cell with next := p }

/-- The first part of `xml_queue_node`: a cell from the free list, or a new one, in which anything may stand. -/
def obtainCell (s : DumpQueue T D) (fresh : QueueCell T D) : Option (DumpQueue T D × Nat) :=
  match s.queueFree with
  | some dq => s.cells[dq]?.map fun cell => ({ s with queueFree := cell.next }, dq)
  | none => some ({ s with cells := s.cells ++ [fresh] }, s.cells.length)

/-- The second part: the cell is pointed at the tree node and the dump node. -/
def fillCell (s : DumpQueue T D) (dq : Nat) (t : T) (dn : D) : Option (DumpQueue T D) :=
  s.modifyCell dq fun _ => ⟨t, dn, none⟩

/-- The last part: the cell is added to the end of the queue. -/
def linkCell (s : DumpQueue T D) (dq : Nat) : Option (DumpQueue T D) :=
  let linked :=
    match s.queueEnd with
    | none => some { s with queue := some dq }
    | some last => s.setNext last (some dq)
  linked.map fun s => { s with queueEnd := some dq }

/-- `xml_queue_node`. A step through an invalid pointer gives `none`. -/
def xmlQueueNode (s : DumpQueue T D) (t : T) (dn : D) : Option (DumpQueue T D) :=
  (s.obtainCell ⟨t, dn, none⟩).bind fun (s, dq) => (s.fillCell dq t dn).bind fun s => s.linkCell dq

/-- In the loop of `xml_dump`: remove the first entry from the queue. -/
def removeFirst (s : DumpQueue T D) : Option (DumpQueue T D × Nat × T × D) :=
  match s.queue with
  | none => none
  | some dq => s.cells[dq]?.map fun cell =>
      ({ s with queue := cell.next, queueEnd := if cell.next.isNone then none else s.queueEnd },
        dq, cell.treeNode, cell.dumpNode)

/-- In the loop of `xml_dump`: put an entry on the free list. -/
def recycle (s : DumpQueue T D) (dq : Nat) : Option (DumpQueue T D) :=
  (s.setNext dq s.queueFree).map fun s => { s with queueFree := some dq }

/-- The loop of `xml_dump` up to the call of `xml_dump_tree_node`: the removed nodes are its arguments. -/
def takeNode (s : DumpQueue T D) : Option (DumpQueue T D × T × D) :=
  s.removeFirst.bind fun (s, dq, t, dn) => (s.recycle dq).map fun s => (s, t, dn)

/-- One pass of the clean-up loop. The cells in `freed` were freed; reading or freeing one of them again is an error. -/
def cleanUpPass (s : DumpQueue T D) : List Nat × Option Nat → Pass (List Nat × Option Nat) (Option (List Nat))
  | (freed, none) => .leave (some freed)
  | (freed, some dq) =>
      if dq < s.cells.length ∧ dq ∉ freed then .again (freed ++ [dq], s.next dq) else .leave none

/-! ## Runs -/

/-- What happens to the queue. -/
inductive Event (T D : Type) where
  | queued (t : T) (dn : D)
  | removed (t : T) (dn : D)

/-- One step of the queue. -/
inductive Step : DumpQueue T D → Event T D → DumpQueue T D → Prop
  | queue {s s' : DumpQueue T D} {t : T} {dn : D} : s.xmlQueueNode t dn = some s' → Step s (.queued t dn) s'
  | take {s s' : DumpQueue T D} {t : T} {dn : D} : s.takeNode = some (s', t, dn) → Step s (.removed t dn) s'

/-- **Every interleaving** of calls and removals, from the empty queue on. -/
inductive Run : List (Event T D) → DumpQueue T D → Prop
  | nil : Run [] {}
  | snoc {history : List (Event T D)} {s s' : DumpQueue T D} {event : Event T D} :
      Run history s → Step s event s' → Run (history ++ [event]) s'

/-- What was queued, in order. -/
def queuedOf (history : List (Event T D)) : List (T × D) :=
  history.filterMap fun
    | .queued t dn => some (t, dn)
    | .removed _ _ => none

/-- What was removed, in order. -/
def removedOf (history : List (Event T D)) : List (T × D) :=
  history.filterMap fun
    | .queued _ _ => none
    | .removed t dn => some (t, dn)

theorem queuedOf_append (history history' : List (Event T D)) :
    queuedOf (history ++ history') = queuedOf history ++ queuedOf history' := List.filterMap_append

theorem removedOf_append (history history' : List (Event T D)) :
    removedOf (history ++ history') = removedOf history ++ removedOf history' := List.filterMap_append

/-! ## The two chains -/

/-- **The pointers represent the queue `Q` and the free list `F`.** Every cell is in one of them once, or among those
in `loose`, which are on their way from one to the other. -/
structure Represents (s : DumpQueue T D) (Q F loose : List Nat) : Prop where
  queue : Walks s.next s.queue Q
  free : Walks s.next s.queueFree F
  cells : (Q ++ F ++ loose).Perm (List.range s.cells.length)
  queueEnd : s.queueEnd = Q.getLast?

section

variable {s s' : DumpQueue T D} {Q F loose : List Nat} {dq : Nat} {t : T} {dn : D}

theorem represents_empty : Represents ({} : DumpQueue T D) [] [] [] := ⟨rfl, rfl, by simp, rfl⟩

theorem Represents.lt (h : Represents s Q F loose) {i : Nat} (hi : i ∈ Q ++ F ++ loose) : i < s.cells.length :=
  List.mem_range.mp (h.cells.mem_iff.mp hi)

theorem Represents.nodup (h : Represents s Q F loose) : (Q ++ F ++ loose).Nodup := h.cells.nodup_iff.mpr List.nodup_range

/-! ### Writing to a cell -/

theorem modifyCell_eq (h : dq < s.cells.length) (f : QueueCell T D → QueueCell T D) :
    s.modifyCell dq f = some { s with cells := s.cells.modify dq f } := if_pos h

theorem next_modify_ne {i : Nat} (h : i ≠ dq) (f : QueueCell T D → QueueCell T D) :
    ({ s with cells := s.cells.modify dq f } : DumpQueue T D).next i = s.next i := by
  simp [DumpQueue.next, h.symm]

theorem next_modify_self (h : dq < s.cells.length) (f : QueueCell T D → QueueCell T D) :
    ({ s with cells := s.cells.modify dq f } : DumpQueue T D).next dq = (f (s.cells[dq])).next := by
  simp [DumpQueue.next, h]

theorem entryAt_modify_ne {i : Nat} (h : i ≠ dq) (f : QueueCell T D → QueueCell T D) :
    ({ s with cells := s.cells.modify dq f } : DumpQueue T D).entryAt i = s.entryAt i := by
  simp [DumpQueue.entryAt, h.symm]

/-- Linking a cell leaves its entry alone. -/
theorem entryAt_setNext (i : Nat) (p : Option Nat) :
    ({ s with cells := s.cells.modify dq fun cell => { cell with next := p } } : DumpQueue T D).entryAt i =
      s.entryAt i := by
  by_cases h : dq = i
  · subst h
    simp only [DumpQueue.entryAt, List.getElem?_modify_eq]
    cases s.cells[dq]? <;> rfl
  · exact entryAt_modify_ne (Ne.symm h) _

/-- A chain that a cell is not in does not change when the cell is written. -/
theorem walks_modify {l : List Nat} {p : Option Nat} (h : Walks s.next p l) (hdq : dq ∉ l)
    (f : QueueCell T D → QueueCell T D) :
    Walks ({ s with cells := s.cells.modify dq f } : DumpQueue T D).next p l :=
  h.congr fun i hi => next_modify_ne (fun he : i = dq => hdq (he ▸ hi)) f

/-! ### The parts of a step -/

/-- A cell is obtained. -/
theorem obtainCell_spec (h : Represents s Q F []) (fresh : QueueCell T D) :
    ∃ s₁ dq F₁, s.obtainCell fresh = some (s₁, dq) ∧ Represents s₁ Q F₁ [dq] ∧ ∀ i ∈ Q, s₁.entryAt i = s.entryAt i := by
  unfold obtainCell
  cases F with
  | nil =>
      have hfree : s.queueFree = none := h.free
      have hget : ∀ i ∈ Q, (s.cells ++ [fresh])[i]? = s.cells[i]? := by
        intro i hi
        exact List.getElem?_append_left (h.lt (by simp [hi]))
      rw [hfree]
      refine ⟨_, _, [], rfl, ⟨?_, rfl, ?_, h.queueEnd⟩, fun i hi => ?_⟩
      · refine h.queue.congr fun i hi => ?_
        simp only [DumpQueue.next, hget i hi]
      · have hcells := h.cells
        simp only [List.append_nil, List.length_append, List.length_singleton, List.range_succ] at hcells ⊢
        exact hcells.append_right _
      · simp only [DumpQueue.entryAt, hget i hi]
  | cons dq F =>
      have hfree : s.queueFree = some dq := h.free.1
      have hlt : dq < s.cells.length := h.lt (by simp)
      have hnext : s.next dq = (s.cells[dq]).next := by simp [DumpQueue.next, hlt]
      rw [hfree]
      simp only [List.getElem?_eq_getElem hlt, Option.map_some]
      refine ⟨_, _, F, rfl, ⟨h.queue, hnext ▸ h.free.2, ?_, h.queueEnd⟩, fun _ _ => rfl⟩
      refine List.Perm.trans ?_ h.cells
      rw [List.append_nil, List.append_assoc]
      exact List.Perm.append_left Q (List.perm_append_singleton dq F)

/-- A cell that is on its way is in neither chain. -/
theorem Represents.loose_ne (h : Represents s Q F [dq]) : dq < s.cells.length ∧ dq ∉ Q ∧ dq ∉ F := by
  have hnodup := h.nodup
  rw [List.nodup_append] at hnodup
  have hdq : ∀ i ∈ Q ++ F, i ≠ dq := fun i hi => hnodup.2.2 i hi dq List.mem_cons_self
  exact ⟨h.lt (by simp), fun hi => hdq dq (by simp [hi]) rfl, fun hi => hdq dq (by simp [hi]) rfl⟩

/-- Such a cell can be written without harm. -/
theorem Represents.modify (h : Represents s Q F [dq]) (f : QueueCell T D → QueueCell T D) :
    Represents { s with cells := s.cells.modify dq f } Q F [dq] := by
  obtain ⟨-, hdqQ, hdqF⟩ := h.loose_ne
  exact ⟨walks_modify h.queue hdqQ f, walks_modify h.free hdqF f, by simpa using h.cells, h.queueEnd⟩

/-- **The cell is filled.** -/
theorem fillCell_spec (h : Represents s Q F [dq]) (t : T) (dn : D) :
    ∃ s', s.fillCell dq t dn = some s' ∧ Represents s' Q F [dq] ∧ (∀ i ∈ Q, s'.entryAt i = s.entryAt i) ∧
      s'.entryAt dq = some (t, dn) ∧ s'.next dq = none := by
  obtain ⟨hlt, hdqQ, -⟩ := h.loose_ne
  refine ⟨_, modifyCell_eq hlt _, h.modify _, fun i hi => ?_, ?_, next_modify_self hlt _⟩
  · exact entryAt_modify_ne (fun he : i = dq => hdqQ (he ▸ hi)) _
  · simp [DumpQueue.entryAt, hlt]

/-- **The cell becomes the last one of the queue.** -/
theorem linkCell_spec (h : Represents s Q F [dq]) (hnull : s.next dq = none) :
    ∃ s', s.linkCell dq = some s' ∧ Represents s' (Q ++ [dq]) F [] ∧ ∀ i, s'.entryAt i = s.entryAt i := by
  obtain ⟨hlt, hdqQ, -⟩ := h.loose_ne
  have hcells : (Q ++ [dq] ++ F ++ []).Perm (List.range s.cells.length) := by
    refine List.Perm.trans ?_ h.cells
    rw [List.append_nil, List.append_assoc, List.append_assoc]
    exact List.Perm.append_left Q List.perm_append_comm
  unfold linkCell
  obtain rfl | ⟨Q, last, rfl⟩ := List.eq_nil_or_concat' Q
  · have hend : s.queueEnd = none := h.queueEnd
    rw [hend]
    exact ⟨_, rfl, ⟨⟨rfl, hnull⟩, h.free, hcells, rfl⟩, fun _ => rfl⟩
  · have hend : s.queueEnd = some last := by rw [h.queueEnd, List.getLast?_concat]
    have hlast : dq ≠ last := fun he => hdqQ (he ▸ by simp)
    have hlt' : last < s.cells.length := h.lt (by simp)
    have hlastF : last ∉ F := by
      have hnodup := h.nodup
      rw [List.append_assoc, List.nodup_append] at hnodup
      exact fun hi => hnodup.2.2 last (by simp) last (by simp [hi]) rfl
    have hset : s.setNext last (some dq) =
        some { s with cells := s.cells.modify last fun cell => { cell with next := some dq } } := modifyCell_eq hlt' _
    rw [hend]
    dsimp only
    rw [hset]
    refine ⟨_, rfl, ⟨?_, walks_modify h.free hlastF _, by simpa using hcells, by simp⟩, fun i => entryAt_setNext i _⟩
    rw [List.append_assoc]
    refine h.queue.splice (fun i hi => next_modify_ne ?_ _) (next_modify_self hlt' _) ⟨rfl, ?_⟩
    · exact fun he => (List.nodup_append.mp h.queue.nodup).2.2 i hi last List.mem_cons_self he
    · exact (next_modify_ne hlast _).trans hnull

/-- **The first cell leaves the queue.** -/
theorem removeFirst_spec (h : Represents s (dq :: Q) F []) :
    ∃ s₁ t dn, s.removeFirst = some (s₁, dq, t, dn) ∧ s.entryAt dq = some (t, dn) ∧ Represents s₁ Q F [dq] ∧
      ∀ i, s₁.entryAt i = s.entryAt i := by
  have hqueue : s.queue = some dq := h.queue.1
  have hlt : dq < s.cells.length := h.lt (by simp)
  have hnext : s.next dq = (s.cells[dq]).next := by simp [DumpQueue.next, hlt]
  have hrest : Walks s.next (s.cells[dq]).next Q := hnext ▸ h.queue.2
  unfold removeFirst
  rw [hqueue]
  dsimp only
  rw [List.getElem?_eq_getElem hlt, Option.map_some]
  refine ⟨_, _, _, rfl, by rw [DumpQueue.entryAt, List.getElem?_eq_getElem hlt, Option.map_some], ⟨hrest, h.free, ?_, ?_⟩,
    fun _ => rfl⟩
  · refine List.Perm.trans ?_ h.cells
    rw [List.append_nil, List.cons_append]
    exact List.perm_append_singleton dq (Q ++ F)
  · cases Q with
    | nil =>
        have hnull : (s.cells[dq]).next = none := hrest
        simp [hnull]
    | cons e Q =>
        have hsome : (s.cells[dq]).next = some e := hrest.1
        simp [hsome, h.queueEnd]

/-- **The cell is put on the free list.** -/
theorem recycle_spec (h : Represents s Q F [dq]) :
    ∃ s', s.recycle dq = some s' ∧ Represents s' Q (dq :: F) [] ∧ ∀ i, s'.entryAt i = s.entryAt i := by
  obtain ⟨hlt, -, -⟩ := h.loose_ne
  have hset : s.setNext dq s.queueFree =
      some { s with cells := s.cells.modify dq fun cell => { cell with next := s.queueFree } } := modifyCell_eq hlt _
  have hmodified := h.modify fun cell => { cell with next := s.queueFree }
  have hself := next_modify_self hlt fun cell => { cell with next := s.queueFree }
  have hcells : (Q ++ dq :: F ++ []).Perm (List.range s.cells.length) := by
    refine List.Perm.trans ?_ h.cells
    rw [List.append_nil, List.append_assoc]
    exact List.Perm.append_left Q (List.perm_append_singleton dq F).symm
  unfold recycle
  rw [hset]
  refine ⟨_, rfl, ⟨hmodified.queue, ⟨rfl, ?_⟩, by simpa using hcells, h.queueEnd⟩, fun i => entryAt_setNext i _⟩
  exact Eq.symm hself ▸ hmodified.free

/-! ## Steps -/

/-- **The queue holds the entries `waiting`**, in this order. -/
def Holds (s : DumpQueue T D) (waiting : List (T × D)) : Prop :=
  ∃ Q F, Represents s Q F [] ∧ Q.map s.entryAt = waiting.map some

theorem holds_empty : Holds ({} : DumpQueue T D) [] := ⟨[], [], represents_empty, rfl⟩

/-- The pointer to the last cell is null if and only if that to the first one is. -/
theorem Represents.queueEnd_eq_none_iff (h : Represents s Q F loose) : s.queueEnd = none ↔ s.queue = none := by
  rw [h.queueEnd]
  cases Q with
  | nil => exact iff_of_true rfl h.queue
  | cons dq Q => exact iff_of_false (by simp) (by simp [h.queue.1])

theorem Holds.queue_eq_none_iff {waiting : List (T × D)} (h : Holds s waiting) : s.queue = none ↔ waiting = [] := by
  obtain ⟨Q, F, hrep, hmap⟩ := h
  cases Q with
  | nil => exact iff_of_true hrep.queue (by simpa using hmap.symm)
  | cons dq Q => exact iff_of_false (by simp [hrep.queue.1]) (by rintro rfl; simp at hmap)

/-- **`xml_queue_node`** adds an entry at the end. -/
theorem Holds.xmlQueueNode {waiting : List (T × D)} (h : Holds s waiting) (t : T) (dn : D) :
    ∃ s', s.xmlQueueNode t dn = some s' ∧ Holds s' (waiting ++ [(t, dn)]) := by
  obtain ⟨Q, F, hrep, hmap⟩ := h
  obtain ⟨s₁, dq, F₁, hobtain, hrep₁, hentry₁⟩ := obtainCell_spec hrep ⟨t, dn, none⟩
  obtain ⟨s₂, hfill, hrep₂, hentry₂, hself, hnull⟩ := fillCell_spec hrep₁ t dn
  obtain ⟨s₃, hlink, hrep₃, hentry₃⟩ := linkCell_spec hrep₂ hnull
  refine ⟨s₃, ?_, Q ++ [dq], F₁, hrep₃, ?_⟩
  · rw [DumpQueue.xmlQueueNode, hobtain, Option.bind_some]
    dsimp only
    rw [hfill, Option.bind_some, hlink]
  · have hkept : Q.map s₃.entryAt = Q.map s.entryAt :=
      List.map_congr_left fun i hi => (hentry₃ i).trans ((hentry₂ i hi).trans (hentry₁ i hi))
    rw [List.map_append, List.map_append, hkept, hmap, List.map_singleton, hentry₃, hself, List.map_singleton]

/-- **The loop of `xml_dump`** takes the first entry. -/
theorem Holds.takeNode {waiting : List (T × D)} (h : Holds s ((t, dn) :: waiting)) :
    ∃ s', s.takeNode = some (s', t, dn) ∧ Holds s' waiting := by
  obtain ⟨Q, F, hrep, hmap⟩ := h
  cases Q with
  | nil => cases hmap
  | cons dq Q =>
      obtain ⟨s₁, t', dn', hremove, hfirst, hrep₁, hentry₁⟩ := removeFirst_spec hrep
      obtain ⟨s₂, hrecycle, hrep₂, hentry₂⟩ := recycle_spec hrep₁
      rw [List.map_cons, List.map_cons, List.cons.injEq] at hmap
      obtain ⟨rfl, rfl⟩ := Prod.mk.inj (Option.some.inj (hfirst.symm.trans hmap.1))
      refine ⟨s₂, ?_, Q, dq :: F, hrep₂, ?_⟩
      · rw [DumpQueue.takeNode, hremove, Option.bind_some]
        dsimp only
        rw [hrecycle, Option.map_some]
      · rw [← hmap.2]
        exact List.map_congr_left fun i _ => (hentry₂ i).trans (hentry₁ i)

theorem takeNode_of_queue_none (h : s.queue = none) : s.takeNode = none := by
  rw [DumpQueue.takeNode, removeFirst, h, Option.bind_none]

/-- One step keeps the order: what was removed and what waits is what was queued. -/
theorem Holds.step {waiting : List (T × D)} {event : Event T D} (h : Holds s waiting) (hstep : Step s event s') :
    ∃ waiting', Holds s' waiting' ∧ removedOf [event] ++ waiting' = waiting ++ queuedOf [event] := by
  cases hstep with
  | @queue _ t dn hqueue =>
      obtain ⟨s'', hqueue', hholds⟩ := h.xmlQueueNode t dn
      obtain rfl := Option.some.inj (hqueue.symm.trans hqueue')
      exact ⟨_, hholds, rfl⟩
  | @take _ t dn htake =>
      cases waiting with
      | nil => cases htake.symm.trans (takeNode_of_queue_none (h.queue_eq_none_iff.mpr rfl))
      | cons x waiting =>
          obtain ⟨t', dn'⟩ := x
          obtain ⟨s'', htake', hholds⟩ := h.takeNode
          obtain ⟨rfl, rfl, rfl⟩ : s' = s'' ∧ t = t' ∧ dn = dn' := by simpa using htake.symm.trans htake'
          exact ⟨waiting, hholds, by simp [removedOf, queuedOf]⟩

/-- **Every run keeps the order.** -/
theorem Run.holds {history : List (Event T D)} (h : Run history s) :
    ∃ waiting, Holds s waiting ∧ removedOf history ++ waiting = queuedOf history := by
  induction h with
  | nil => exact ⟨[], holds_empty, rfl⟩
  | @snoc history s s' event _ hstep ih =>
      obtain ⟨waiting, hholds, horder⟩ := ih
      obtain ⟨waiting', hholds', hevent⟩ := hholds.step hstep
      refine ⟨waiting', hholds', ?_⟩
      rw [removedOf_append, queuedOf_append, ← horder, List.append_assoc, hevent, List.append_assoc]

/-! ## The clean-up loop -/

/-- From a pointer to a chain of cells that are not freed yet, the loop frees the cells of the chain. -/
theorem cleanUp_walks {freed l : List Nat} {p : Option Nat} (hwalks : Walks s.next p l) (hnodup : (freed ++ l).Nodup)
    (hlt : ∀ i ∈ l, i < s.cells.length) : Loop.Result (cleanUpPass s) (freed, p) (some (freed ++ l)) := by
  induction l generalizing freed p with
  | nil =>
      obtain rfl := walks_nil.mp hwalks
      rw [List.append_nil]
      exact .of_leave rfl
  | cons dq l ih =>
      obtain ⟨rfl, hrest⟩ := hwalks
      have hfresh : dq ∉ freed := fun hi => (List.nodup_append.mp hnodup).2.2 dq hi dq List.mem_cons_self rfl
      have hpass : cleanUpPass s (freed, some dq) = .again (freed ++ [dq], s.next dq) :=
        if_pos ⟨hlt dq List.mem_cons_self, hfresh⟩
      have hnext := @ih (freed ++ [dq]) _ hrest (by simpa using hnodup) fun i hi => hlt i (List.mem_cons_of_mem _ hi)
      rw [List.append_assoc] at hnext
      exact .of_again hpass hnext

/-- **The clean-up loop** frees every cell once when the queue is empty. -/
theorem Represents.cleanUp (h : Represents s Q F []) (hempty : s.queue = none) :
    F.Perm (List.range s.cells.length) ∧ Loop.Result (cleanUpPass s) ([], s.queueFree) (some F) := by
  obtain rfl : Q = [] := h.queue.unique hempty
  have hcells : F.Perm (List.range s.cells.length) := by simpa using h.cells
  exact ⟨hcells, cleanUp_walks h.free (hcells.nodup_iff.mpr List.nodup_range) fun i hi => h.lt (by simp [hi])⟩

end

/-! ## The two phases -/

/-- Calls of `xml_queue_node`, one after the other. -/
def queueAll (s : DumpQueue T D) : List (T × D) → Option (DumpQueue T D)
  | [] => some s
  | (t, dn) :: calls => (s.xmlQueueNode t dn).bind fun s => s.queueAll calls

def queuedEvents (calls : List (T × D)) : List (Event T D) := calls.map fun (t, dn) => .queued t dn

theorem removedOf_queuedEvents (calls : List (T × D)) : removedOf (queuedEvents calls) = [] := by
  simp [removedOf, queuedEvents, List.filterMap_map]

/-- A run of `xml_dump`, in which the printing of a node may make any calls. -/
inductive XmlDump : DumpQueue T D → List (Event T D) → DumpQueue T D → Prop
  | done {s : DumpQueue T D} : s.queue = none → XmlDump s [] s
  | node {s s₁ s₂ s' : DumpQueue T D} {t : T} {dn : D} {calls : List (T × D)} {history : List (Event T D)} :
      s.takeNode = some (s₁, t, dn) → s₁.queueAll calls = some s₂ → XmlDump s₂ history s' →
      XmlDump s (.removed t dn :: (queuedEvents calls ++ history)) s'

/-- A run of `do_xml_output` up to its clean-up: the start nodes are queued and dumped, and then the incomplete ones. -/
inductive DoXmlOutput : List (Event T D) → DumpQueue T D → Prop
  | phases {s₁ s₂ s₃ s₄ : DumpQueue T D} {starts incomplete : List (T × D)} {first second : List (Event T D)} :
      ({} : DumpQueue T D).queueAll starts = some s₁ → XmlDump s₁ first s₂ → s₂.queueAll incomplete = some s₃ →
      XmlDump s₃ second s₄ → DoXmlOutput (queuedEvents starts ++ first ++ queuedEvents incomplete ++ second) s₄

section

variable {s s' : DumpQueue T D} {history history' : List (Event T D)} {calls : List (T × D)}

theorem Run.queueAll (h : Run history s) (hcalls : s.queueAll calls = some s') :
    Run (history ++ queuedEvents calls) s' := by
  induction calls generalizing history s with
  | nil =>
      obtain rfl := Option.some.inj hcalls
      rw [queuedEvents, List.map_nil, List.append_nil]
      exact h
  | cons x calls ih =>
      obtain ⟨t, dn⟩ := x
      obtain ⟨s₁, hqueue, hrest⟩ := Option.bind_eq_some_iff.mp hcalls
      have hrun := ih (h.snoc (.queue hqueue)) hrest
      rw [List.append_assoc] at hrun
      exact hrun

theorem Run.xmlDump (hdump : XmlDump s history' s') {history : List (Event T D)} (h : Run history s) :
    Run (history ++ history') s' := by
  induction hdump generalizing history with
  | done _ =>
      rw [List.append_nil]
      exact h
  | node htake hcalls _ ih =>
      have hrun := ih ((h.snoc (.take htake)).queueAll hcalls)
      simp only [List.append_assoc, List.singleton_append] at hrun
      exact hrun

theorem XmlDump.queue_eq_none (h : XmlDump s history s') : s'.queue = none := by
  induction h with
  | done hempty => exact hempty
  | node _ _ _ ih => exact ih

/-- **`do_xml_output` is a run**, and its queue is empty at the end. -/
theorem DoXmlOutput.run (h : DoXmlOutput history s) : Run history s ∧ s.queue = none := by
  cases h with
  | phases hstarts hfirst hincomplete hsecond =>
      have hrun := Run.queueAll .nil hstarts
      rw [List.nil_append] at hrun
      exact ⟨((hrun.xmlDump hfirst).queueAll hincomplete).xmlDump hsecond, hsecond.queue_eq_none⟩

end

/-- **The dump queue is a recycling first-in-first-out queue.** After every interleaving of calls and removals the two
chains hold each cell once, the pointer to the last cell is right, what was removed and what waits is what was queued,
and the next call or removal goes through valid pointers. When both phases have ended, everything was removed and the
clean-up loop frees each cell once. -/
theorem recycling_fifo :
    (∀ (history : List (Event T D)) (s : DumpQueue T D), Run history s →
      (∃ Q F waiting, Represents s Q F [] ∧ (s.queueEnd = none ↔ s.queue = none) ∧
        Q.map s.entryAt = waiting.map some ∧ removedOf history ++ waiting = queuedOf history) ∧
      (∀ t dn, (s.xmlQueueNode t dn).isSome = true) ∧ (s.takeNode.isSome = true ↔ s.queue ≠ none)) ∧
    ∀ (history : List (Event T D)) (s : DumpQueue T D), DoXmlOutput history s →
      s.queue = none ∧ removedOf history = queuedOf history ∧
      ∃ F, Walks s.next s.queueFree F ∧ F.Perm (List.range s.cells.length) ∧
        Loop.Result (cleanUpPass s) ([], s.queueFree) (some F) := by
  refine ⟨fun history s hrun => ?_, fun history s houtput => ?_⟩
  · obtain ⟨waiting, hholds, horder⟩ := hrun.holds
    have hchains := hholds
    obtain ⟨Q, F, hrep, hmap⟩ := hchains
    refine ⟨⟨Q, F, waiting, hrep, hrep.queueEnd_eq_none_iff, hmap, horder⟩, fun t dn => ?_, ?_⟩
    · obtain ⟨s', hqueue, -⟩ := hholds.xmlQueueNode t dn
      rw [hqueue]
      rfl
    · rw [ne_eq, hholds.queue_eq_none_iff]
      cases waiting with
      | nil => simp [takeNode_of_queue_none (hholds.queue_eq_none_iff.mpr rfl)]
      | cons x waiting =>
          obtain ⟨s', htake, -⟩ := Holds.takeNode (t := x.1) hholds
          simp [htake]
  · obtain ⟨hrun, hempty⟩ := houtput.run
    obtain ⟨waiting, hholds, horder⟩ := hrun.holds
    obtain rfl := hholds.queue_eq_none_iff.mp hempty
    obtain ⟨Q, F, hrep, -⟩ := hholds
    obtain ⟨hcells, hcleanUp⟩ := hrep.cleanUp hempty
    exact ⟨hempty, by simpa using horder, F, hrep.free, hcells, hcleanUp⟩

/-- The node that the printing of a node queues is put into the cell of that node. -/
example : ((({} : DumpQueue Nat Nat).xmlQueueNode 7 7).bind fun s => s.takeNode.bind fun (s, _) =>
    (s.xmlQueueNode 8 8).map fun s => (s.cells.length, s.queue, s.queueFree)) = some (1, some 0, none) := by decide

/-! ## The queue of the dump

The dump keeps its queue as a list of nodes. There is one dump node for each tree node, so it is named by it here. -/

section

variable {Node : Type} [DecidableEq Node] {tu : TranslationUnit Node} {s s' : DumpInfo Node} {q : DumpQueue Node Node}

/-- The entry with which a node is queued. -/
def entryOf (n : Node) : Node × Node := (n, n)

theorem Holds.queueAll {waiting calls : List (T × D)} {q : DumpQueue T D} (h : Holds q waiting) :
    ∃ q', q.queueAll calls = some q' ∧ Holds q' (waiting ++ calls) := by
  induction calls generalizing q waiting with
  | nil => exact ⟨q, rfl, by simpa using h⟩
  | cons x calls ih =>
      obtain ⟨t, dn⟩ := x
      obtain ⟨q₁, hqueue, hholds⟩ := h.xmlQueueNode t dn
      obtain ⟨q₂, hrest, hholds'⟩ := ih hholds
      rw [List.append_assoc, List.singleton_append] at hholds'
      exact ⟨q₂, by rw [DumpQueue.queueAll, hqueue, Option.bind_some, hrest], hholds'⟩

/-- Printing only adds to the queue. -/
theorem queue_prefix_execAll (log : List (Action Node)) : s.queue <+: (s.execAll tu log).queue := by
  refine @DumpInfo.execAll_induct _ _ tu (fun s' => s.queue <+: s'.queue) log (fun s' _ c _ r _ h => h.trans ?_)
    (fun _ _ h => h) (fun s' name _ h => ?_) s List.prefix_rfl
  · by_cases hi : s'.index r = 0
    · rw [DumpInfo.addNodeReal_new s' r c hi]
      exact List.prefix_append _ _
    · rw [DumpInfo.addNodeReal_known s' r c hi]
      exact List.prefix_append _ _
  · obtain ⟨_, _, _, heq⟩ := DumpInfo.queueFile_eq s' name
    rw [heq]
    exact h

/-- **The list queue is implemented by the cells**: `xml_dump` hands the same nodes to `xml_dump_tree_node`. -/
theorem exists_xmlDump {fuel : Nat} (hholds : Holds q (s.queue.map entryOf)) (hrun : xmlDump tu fuel s = some s') :
    ∃ history q', XmlDump q history q' ∧ Holds q' [] ∧
      (s.dumped.map Prod.fst) ++ (removedOf history).map Prod.fst = s'.dumped.map Prod.fst := by
  induction fuel generalizing s q with
  | zero =>
      cases hq : s.queue with
      | nil =>
          rw [xmlDump_of_queue_nil hq] at hrun
          obtain rfl := Option.some.inj hrun
          rw [hq] at hholds
          exact ⟨[], q, .done (hholds.queue_eq_none_iff.mpr rfl), hholds, List.append_nil _⟩
      | cons n rest =>
          rw [xmlDump_zero_of_queue_cons hq] at hrun
          cases hrun
  | succ fuel ih =>
      cases hq : s.queue with
      | nil =>
          rw [xmlDump_of_queue_nil hq] at hrun
          obtain rfl := Option.some.inj hrun
          rw [hq] at hholds
          exact ⟨[], q, .done (hholds.queue_eq_none_iff.mpr rfl), hholds, List.append_nil _⟩
      | cons n rest =>
          rw [xmlDump_of_queue_cons hq] at hrun
          rw [hq, List.map_cons] at hholds
          -- one round: the first cell is taken, then what printing its node queues is linked behind
          obtain ⟨q₁, htake, hholds₁⟩ := hholds.takeNode
          obtain ⟨calls, hcalls⟩ : rest <+: (xmlDumpNode tu { s with queue := rest } n).queue :=
            queue_prefix_execAll (s := { s with queue := rest, dumped := s.dumped ++ [(n, s.complete n)] }) _
          obtain ⟨q₂, hqueue, hholds₂⟩ := @Holds.queueAll _ _ _ (calls.map entryOf) _ hholds₁
          rw [← List.map_append, hcalls] at hholds₂
          obtain ⟨history, q', hdump, hempty, horder⟩ := ih hholds₂ hrun
          refine ⟨_, q', .node htake hqueue hdump, hempty, ?_⟩
          have hremoved : removedOf (Event.removed n n :: (queuedEvents (calls.map entryOf) ++ history)) =
              (n, n) :: removedOf history := by
            rw [← List.singleton_append, removedOf_append, removedOf_append, removedOf_queuedEvents]
            rfl
          rw [← horder, dumped_xmlDumpNode, List.map_append, List.append_assoc, hremoved]
          rfl

/-- **Every run of the dump is one of the queue in memory**, with the nodes handed over in the same order. -/
theorem exists_doXmlOutput {starts : List Node} {s₁ s₂ : DumpInfo Node} (h : PhasesEnd tu starts s₁ s₂) :
    ∃ (history : List (Event Node Node)) (q : DumpQueue Node Node), DoXmlOutput history q ∧
      (removedOf history).map Prod.fst = s₂.dumped.map Prod.fst := by
  obtain ⟨q₁, hstarts, hholds₁⟩ := @Holds.queueAll _ _ _ ((startDump tu starts).queue.map entryOf) _
    (holds_empty (T := Node) (D := Node))
  obtain ⟨first, q₂, hfirst, hempty, horder⟩ := exists_xmlDump hholds₁ h.first
  obtain ⟨q₃, hincomplete, hholds₃⟩ := @Holds.queueAll _ _ _ ((startIncomplete tu s₁).queue.map entryOf) _ hempty
  obtain ⟨second, q₄, hsecond, -, horder'⟩ := exists_xmlDump hholds₃ h.second
  refine ⟨_, q₄, .phases hstarts hfirst hincomplete hsecond, ?_⟩
  have hbefore : (startDump tu starts).dumped = [] := dumped_execAll _ _
  rw [hbefore] at horder
  simp only [removedOf_append, removedOf_queuedEvents, List.nil_append, List.append_nil, List.map_append,
    List.map_nil] at horder ⊢
  rw [horder]
  exact horder'

end

end DumpQueue

end GccXml
