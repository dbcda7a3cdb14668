import Mathlib.Data.List.Nodup

namespace GccXml

/-! # `Lib.Worklist` — exploring a graph with a queue

An exploration takes items from the front of a queue and appends the successors it has not met before. `base` holds the
items that are taken as met from the start. What the exploration visits is the least set that contains the start items
and is closed under successors, both without `base`, and it visits each of them once.

`Reach` is that set as an induction, and `Inv` the invariant that holds between two visits: what was visited and what
waits are reached, without repetition, and what a visited item leads to has been met. When the queue is empty the
second half says that the visited items are closed, so they are all that can be reached. A program that explores is
compared with `Worklist.step`, push by push. -/

/-- The items taken from the queue so far, in that order, and those still in it. -/
structure Worklist (α : Type) where
  done : List α := []
  queue : List α := []

namespace Worklist

variable {α : Type} (base : α → Prop) (succ : α → List α)

/-- `x` has been met: it is in `base`, was taken from the queue or waits in it. -/
def Met (w : Worklist α) (x : α) : Prop := base x ∨ x ∈ w.done ∨ x ∈ w.queue

open Classical in
/-- Append `x` to the queue unless it has been met. -/
noncomputable def push (w : Worklist α) (x : α) : Worklist α :=
  if w.Met base x then w else { w with queue := w.queue ++ [x] }

/-- Append each of `xs` in turn. -/
noncomputable def pushAll (w : Worklist α) (xs : List α) : Worklist α := xs.foldl (push base) w

/-- Take the first item from the queue and append its successors. -/
noncomputable def step (w : Worklist α) : Worklist α :=
  match w.queue with
  | [] => w
  | x :: rest => pushAll base ⟨w.done ++ [x], rest⟩ (succ x)

/-- **Reachability** from `init` by successors, never through `base`. -/
inductive Reach (init : List α) : α → Prop
  | init {x : α} : x ∈ init → ¬ base x → Reach init x
  | succ {x y : α} : Reach init x → y ∈ succ x → ¬ base y → Reach init y

variable {base succ}

/-- Reachability is the least set with the start items that is closed under successors. -/
theorem Reach.least {init : List α} {P : α → Prop} (hinit : ∀ x ∈ init, ¬ base x → P x)
    (hsucc : ∀ x, P x → ∀ y ∈ succ x, ¬ base y → P y) {x : α} (h : Reach base succ init x) : P x := by
  induction h with
  | init hx hb => exact hinit _ hx hb
  | succ _ hy hb ih => exact hsucc _ ih _ hy hb

theorem Reach.not_base {init : List α} {x : α} (h : Reach base succ init x) : ¬ base x := by
  cases h with
  | init _ hb => exact hb
  | succ _ _ hb => exact hb

theorem push_of_met {w : Worklist α} {x : α} (h : w.Met base x) : w.push base x = w := if_pos h

theorem push_of_not_met {w : Worklist α} {x : α} (h : ¬ w.Met base x) :
    w.push base x = { w with queue := w.queue ++ [x] } := if_neg h

theorem met_push {w : Worklist α} {x y : α} : (w.push base x).Met base y ↔ w.Met base y ∨ y = x := by
  by_cases h : w.Met base x
  · rw [push_of_met h]
    exact ⟨Or.inl, fun hy => hy.elim id fun he => he ▸ h⟩
  · rw [push_of_not_met h]
    simp only [Met, List.mem_append, List.mem_singleton]
    tauto

theorem done_push (w : Worklist α) (x : α) : (w.push base x).done = w.done := by
  unfold push; split <;> rfl

theorem met_pushAll {w : Worklist α} {xs : List α} {y : α} :
    (w.pushAll base xs).Met base y ↔ w.Met base y ∨ y ∈ xs := by
  induction xs generalizing w with
  | nil => simp [pushAll]
  | cons x xs ih =>
      show ((w.push base x).pushAll base xs).Met base y ↔ _
      rw [ih, met_push, List.mem_cons, or_assoc]

theorem done_pushAll (w : Worklist α) (xs : List α) : (w.pushAll base xs).done = w.done := by
  induction xs generalizing w with
  | nil => rfl
  | cons x xs ih => exact (ih _).trans (done_push w x)

theorem pushAll_append (w : Worklist α) (xs ys : List α) :
    w.pushAll base (xs ++ ys) = (w.pushAll base xs).pushAll base ys := List.foldl_append

/-- What an exploration from `init` keeps true. -/
structure Inv (base : α → Prop) (succ : α → List α) (init : List α) (w : Worklist α) : Prop where
  nodup : (w.done ++ w.queue).Nodup
  sound : ∀ x, x ∈ w.done ∨ x ∈ w.queue → Reach base succ init x
  start : ∀ x ∈ init, w.Met base x
  closed : ∀ x ∈ w.done, ∀ y ∈ succ x, w.Met base y

/-- Without closure, the invariant survives a push of something reachable. -/
theorem nodup_push {w : Worklist α} {x : α} (h : (w.done ++ w.queue).Nodup) :
    ((w.push base x).done ++ (w.push base x).queue).Nodup := by
  by_cases hx : w.Met base x
  · rwa [push_of_met hx]
  · rw [push_of_not_met hx, ← List.append_assoc, List.nodup_append]
    refine ⟨h, by simp, ?_⟩
    rintro a ha b hb rfl
    rw [List.mem_singleton.mp hb] at ha
    exact hx (Or.inr (List.mem_append.mp ha))

theorem nodup_pushAll {w : Worklist α} {xs : List α} (h : (w.done ++ w.queue).Nodup) :
    ((w.pushAll base xs).done ++ (w.pushAll base xs).queue).Nodup := by
  induction xs generalizing w with
  | nil => exact h
  | cons x xs ih => exact ih (nodup_push h)

theorem mem_pushAll {w : Worklist α} {xs : List α} {y : α}
    (h : y ∈ (w.pushAll base xs).done ∨ y ∈ (w.pushAll base xs).queue) :
    (y ∈ w.done ∨ y ∈ w.queue) ∨ (y ∈ xs ∧ ¬ base y) := by
  induction xs generalizing w with
  | nil => exact Or.inl h
  | cons x xs ih =>
      rcases ih h with h | ⟨h, hb⟩
      · by_cases hx : w.Met base x
        · rw [push_of_met hx] at h; exact Or.inl h
        · rw [push_of_not_met hx] at h
          simp only [List.mem_append, List.mem_singleton] at h
          rcases h with h | h | rfl
          · exact Or.inl (Or.inl h)
          · exact Or.inl (Or.inr h)
          · exact Or.inr ⟨List.mem_cons_self, fun hb => hx (Or.inl hb)⟩
      · exact Or.inr ⟨List.mem_cons_of_mem _ h, hb⟩

/-- The exploration that is about to start, with the start items in any order. -/
theorem Inv.start_pushAll_of_mem {init xs : List α} (hxs : ∀ x, x ∈ xs ↔ x ∈ init) :
    Inv base succ init (pushAll base {} xs) where
  nodup := nodup_pushAll (by simp)
  sound x hx := by
    rcases mem_pushAll hx with h | ⟨h, hb⟩
    · simp at h
    · exact .init ((hxs x).mp h) hb
  start x hx := met_pushAll.mpr (Or.inr ((hxs x).mpr hx))
  closed x hx := by rw [done_pushAll] at hx; simp at hx

/-- The exploration that is about to start. -/
theorem Inv.start_pushAll (init : List α) : Inv base succ init (pushAll base {} init) :=
  .start_pushAll_of_mem fun _ => Iff.rfl

/-- A queue without repetitions and outside `base` is an exploration that is about to start. -/
theorem Inv.start_queue {init : List α} (hnd : init.Nodup) (hb : ∀ x ∈ init, ¬ base x) :
    Inv base succ init ⟨[], init⟩ where
  nodup := hnd
  sound x hx := by
    rcases hx with h | h
    · simp at h
    · exact .init h (hb x h)
  start _ hx := Or.inr (Or.inr hx)
  closed x hx := by simp at hx

/-- Taking an item from the queue and pushing its successors, in any order, keeps the invariant. -/
theorem Inv.visit {init done rest ys : List α} {x : α} (h : Inv base succ init ⟨done, x :: rest⟩)
    (hys : ∀ y, y ∈ ys ↔ y ∈ succ x) : Inv base succ init (pushAll base ⟨done ++ [x], rest⟩ ys) := by
  have hx : Reach base succ init x := h.sound x (Or.inr List.mem_cons_self)
  -- what was met stays met: `x` moves from the queue to what is done
  have hmet : ∀ y, Met base ⟨done, x :: rest⟩ y → Met base ⟨done ++ [x], rest⟩ y := by
    intro y hy
    simp only [Met, List.mem_cons, List.mem_append, List.not_mem_nil, or_false] at hy ⊢
    tauto
  refine ⟨nodup_pushAll (by simpa using h.nodup), fun y hy => ?_, fun y hy => ?_, fun y hy z hz => ?_⟩
  · rcases mem_pushAll hy with hy | ⟨hy, hb⟩
    · refine h.sound y ?_
      simp only [List.mem_cons, List.mem_append, List.not_mem_nil, or_false] at hy ⊢
      tauto
    · exact .succ hx ((hys y).mp hy) hb
  · exact met_pushAll.mpr (Or.inl (hmet y (h.start y hy)))
  · simp only [done_pushAll, List.mem_append, List.mem_singleton] at hy
    refine met_pushAll.mpr ?_
    rcases hy with hy | rfl
    · exact Or.inl (hmet z (h.closed y hy z hz))
    · exact Or.inr ((hys z).mpr hz)

/-- One round of the exploration keeps the invariant. -/
theorem Inv.step {init : List α} {w : Worklist α} (h : Inv base succ init w) :
    Inv base succ init (w.step base succ) := by
  obtain ⟨done, queue⟩ := w
  cases queue with
  | nil => exact h
  | cons x rest => exact h.visit fun _ => Iff.rfl

/-- **At the end** the exploration has visited exactly what is reachable. -/
theorem Inv.mem_done_iff {init : List α} {w : Worklist α} (h : Inv base succ init w) (hq : w.queue = []) {x : α} :
    x ∈ w.done ↔ Reach base succ init x := by
  refine ⟨fun hx => h.sound x (Or.inl hx), fun hx => ?_⟩
  have hmet : ∀ y, w.Met base y → ¬ base y → y ∈ w.done := fun y hy hb =>
    (hy.resolve_left hb).elim id fun hy => by rw [hq] at hy; simp at hy
  exact hx.least (fun y hy hb => hmet y (h.start y hy) hb)
    fun y hy z hz hb => hmet z (h.closed y hy z hz) hb

/-- At the end each item was visited once. -/
theorem Inv.nodup_done {init : List α} {w : Worklist α} (h : Inv base succ init w) : w.done.Nodup :=
  (List.nodup_append.mp h.nodup).1

end Worklist

end GccXml
