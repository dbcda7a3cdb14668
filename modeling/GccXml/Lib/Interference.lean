import GccXml.Lib.Trace

namespace GccXml

/-! # `Lib.Interference` — computations that change what they read

A `Trace` decides its effects from data that stay as they are. A computation here runs in a world of type `τ` that its
own steps may change, and it acts on a state of type `σ`; what it reads of the world in a step is what earlier steps
have left there. `InWorld τ σ` is the monad of such computations.

Where the changes do not matter, a computation does what some trace says. `Follows Agree exec e r` states this: started
in any world that satisfies `Agree`, the computation `e` ends in such a world, with the value of the trace `r` and with
the effects of `r` carried out on the state. The rules below prove it along the structure of `e`: a step that reads the
world has to follow the trace for every world in `Agree`, a step that changes the world has to keep it in `Agree`, and
sequences and loops follow when their parts do. So a program over changing data is compared with one over fixed data
without looking at its runs. -/

/-- A computation on a state of type `σ` in a world of type `τ`; the result is `none` when it does not end. -/
abbrev InWorld (τ σ : Type) : Type → Type := StateT (τ × σ) Option

namespace InWorld

variable {τ σ ω α β : Type}

/-- Read the world. -/
def world : InWorld τ σ τ := fun p => some (p.1, p)

/-- Change the world. -/
def change (f : τ → τ) : InWorld τ σ Unit := fun p => some ((), (f p.1, p.2))

/-- Read the state. -/
def state : InWorld τ σ σ := fun p => some (p.2, p)

/-- Change the state. -/
def act (f : σ → σ) : InWorld τ σ Unit := fun p => some ((), (p.1, f p.2))

/-- Do `x` only if `p` holds. -/
def when (p : Prop) [Decidable p] (x : InWorld τ σ Unit) : InWorld τ σ Unit := if p then x else pure ()

/-- Not to end. -/
def diverge : InWorld τ σ α := fun _ => none

@[simp] theorem pure_apply (a : α) (p : τ × σ) : (pure a : InWorld τ σ α) p = some (a, p) := rfl

/-- One computation, then the next from where it ended. -/
theorem bind_apply (x : InWorld τ σ α) (f : α → InWorld τ σ β) (p : τ × σ) :
    (x >>= f) p = (x p).bind fun q => f q.1 q.2 := rfl

theorem bind_apply_of_eq {x : InWorld τ σ α} {p q : τ × σ} {a : α} (h : x p = some (a, q)) (f : α → InWorld τ σ β) :
    (x >>= f) p = f a q := by
  rw [bind_apply, h]
  rfl

/-- Reading the world changes nothing. -/
@[simp] theorem world_bind_apply (f : τ → InWorld τ σ α) (p : τ × σ) : (world >>= f) p = f p.1 p := rfl

/-- Reading the state changes nothing. -/
@[simp] theorem state_bind_apply (f : σ → InWorld τ σ α) (p : τ × σ) : (state >>= f) p = f p.2 p := rfl

@[simp] theorem act_bind_apply (g : σ → σ) (f : Unit → InWorld τ σ α) (p : τ × σ) :
    (act g >>= f) p = f () (p.1, g p.2) := rfl

/-! ## Ending where another computation ends

A recursion without a bound of its own is written with fuel. A run with more fuel ends as one with less does. -/

/-- Where `x` ends, `y` ends with the same result. -/
def Below (x y : InWorld τ σ α) : Prop := ∀ p q, x p = some q → y p = some q

namespace Below

theorem refl (x : InWorld τ σ α) : Below x x := fun _ _ h => h

theorem diverge (x : InWorld τ σ α) : Below InWorld.diverge x := fun _ _ h => by cases h

theorem bind {x y : InWorld τ σ α} {f g : α → InWorld τ σ β} (hx : Below x y) (hf : ∀ a, Below (f a) (g a)) :
    Below (x >>= f) (y >>= g) := by
  intro p q h
  rw [bind_apply, Option.bind_eq_some_iff] at h
  obtain ⟨r, hr, hq⟩ := h
  rw [bind_apply_of_eq (hx p r hr)]
  exact hf r.1 r.2 q hq

theorem discard {x y : InWorld τ σ α} (hx : Below x y) : Below (Functor.discard x) (Functor.discard y) := by
  show Below (x >>= fun _ => pure ()) (y >>= fun _ => pure ())
  exact hx.bind fun _ => .refl _

theorem when {p : Prop} [Decidable p] {x y : InWorld τ σ Unit} (h : Below x y) :
    Below (InWorld.when p x) (InWorld.when p y) := by
  unfold InWorld.when
  split
  · exact h
  · exact .refl _

theorem forM {xs : List α} {f g : α → InWorld τ σ Unit} (h : ∀ x, Below (f x) (g x)) :
    Below (xs.forM f) (xs.forM g) := by
  induction xs with
  | nil => exact .refl _
  | cons x xs ih => exact .bind (h x) fun _ => ih

end Below

/-! ## Following a trace -/

/-- In the worlds of `Agree`, the computation `e` returns the value of the trace `r` and carries out its effects. -/
def Follows (Agree : τ → Prop) (exec : σ → ω → σ) (e : InWorld τ σ α) (r : Trace ω α) : Prop :=
  ∀ w s, Agree w → ∃ w', Agree w' ∧ e (w, s) = some (r.value, (w', r.log.foldl exec s))

namespace Follows

variable {Agree : τ → Prop} {exec : σ → ω → σ}

theorem pure (a : α) : Follows Agree exec (Pure.pure a) (Pure.pure a) := fun w _ hw => ⟨w, hw, rfl⟩

theorem bind {x : InWorld τ σ α} {r : Trace ω α} {f : α → InWorld τ σ β} {q : α → Trace ω β}
    (hx : Follows Agree exec x r) (hf : Follows Agree exec (f r.value) (q r.value)) :
    Follows Agree exec (x >>= f) (r >>= q) := by
  intro w s hw
  obtain ⟨w₁, hw₁, h₁⟩ := hx w s hw
  obtain ⟨w₂, hw₂, h₂⟩ := hf w₁ _ hw₁
  refine ⟨w₂, hw₂, ?_⟩
  rw [bind_apply_of_eq h₁, h₂, Trace.value_bind, Trace.log_bind, List.foldl_append]

/-- A result that is not used. -/
theorem discard {x : InWorld τ σ α} {r : Trace ω α} (hx : Follows Agree exec x r) :
    Follows Agree exec (Functor.discard x) (Functor.discard r) := by
  intro w s hw
  obtain ⟨w', hw', h⟩ := hx w s hw
  refine ⟨w', hw', ?_⟩
  rw [Trace.value_discard, Trace.log_discard]
  show (x >>= fun _ => Pure.pure ()) (w, s) = _
  rw [bind_apply_of_eq h]
  rfl

/-- A step that depends on the world follows the trace if it does so for every world in `Agree`. -/
theorem world {f : τ → InWorld τ σ α} {r : Trace ω α} (h : ∀ w, Agree w → Follows Agree exec (f w) r) :
    Follows Agree exec (InWorld.world >>= f) r := fun w s hw => h w hw w s hw

/-- A change that stays in `Agree` is not seen. -/
theorem change {f : τ → τ} (h : ∀ w, Agree w → Agree (f w)) :
    Follows Agree exec (InWorld.change f) (Pure.pure () : Trace ω Unit) := fun w _ hw => ⟨f w, h w hw, rfl⟩

/-- An action on the state is an effect of the trace. -/
theorem act (e : ω) : Follows Agree exec (InWorld.act fun s => exec s e) (Trace.tell e) := fun w _ hw => ⟨w, hw, rfl⟩

/-- A step that is taken on a condition of the caller. -/
theorem when {p : Prop} [Decidable p] {x : InWorld τ σ Unit} {r : Trace ω Unit} (h : p → Follows Agree exec x r) :
    Follows Agree exec (InWorld.when p x) (Trace.when p r) := by
  unfold InWorld.when Trace.when
  split
  · rename_i hp
    exact h hp
  · exact .pure ()

/-- A loop follows the loop of the traces of its rounds. -/
theorem forM {xs : List α} {f : α → InWorld τ σ Unit} {g : α → Trace ω Unit}
    (h : ∀ x ∈ xs, Follows Agree exec (f x) (g x)) : Follows Agree exec (xs.forM f) (Trace.each xs g) := by
  induction xs with
  | nil => exact .pure ()
  | cons x xs ih =>
      rw [Trace.each_cons]
      exact .bind (h x List.mem_cons_self) (ih fun y hy => h y (List.mem_cons_of_mem _ hy))

end Follows

end InWorld

end GccXml
