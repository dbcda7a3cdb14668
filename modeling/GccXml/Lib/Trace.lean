import Mathlib.Data.List.Basic

namespace GccXml

/-! # `Lib.Trace` — computations that return a value and log their effects

A procedure whose control flow never looks at the state it changes is a value together with the list of effects
it issues, in order. `Trace ω α` is that pair as a monad: `value` is what the procedure returns and `log` the
effects it issues. A state machine then runs the log one effect at a time, and every question about *which*
effects are issued is a question about a list. -/

/-- A value of type `α` and the effects of type `ω` issued on the way to it. -/
structure Trace (ω α : Type) where
  value : α
  log : List ω

namespace Trace

variable {ω α β γ : Type}

instance : Monad (Trace ω) where
  pure a := ⟨a, []⟩
  bind x f := ⟨(f x.value).value, x.log ++ (f x.value).log⟩

/-- Issue one effect. -/
def tell (e : ω) : Trace ω Unit := ⟨(), [e]⟩

@[simp] theorem value_pure (a : α) : (pure a : Trace ω α).value = a := rfl
@[simp] theorem log_pure (a : α) : (pure a : Trace ω α).log = [] := rfl

@[simp] theorem value_bind (x : Trace ω α) (f : α → Trace ω β) : (x >>= f).value = (f x.value).value := rfl
@[simp] theorem log_bind (x : Trace ω α) (f : α → Trace ω β) :
    (x >>= f).log = x.log ++ (f x.value).log := rfl

@[simp] theorem value_map (f : α → β) (x : Trace ω α) : (f <$> x).value = f x.value := rfl
@[simp] theorem log_map (f : α → β) (x : Trace ω α) : (f <$> x).log = x.log := by
  show x.log ++ [] = x.log
  simp

@[simp] theorem value_tell (e : ω) : (tell e).value = () := rfl
@[simp] theorem log_tell (e : ω) : (tell e).log = [e] := rfl

@[simp] theorem value_discard (x : Trace ω α) : (discard x).value = () := rfl
@[simp] theorem log_discard (x : Trace ω α) : (discard x).log = x.log := by
  show x.log ++ [] = x.log
  simp

@[ext] theorem ext {x y : Trace ω α} (hv : x.value = y.value) (hl : x.log = y.log) : x = y := by
  cases x; cases y; cases hv; cases hl; rfl

/-- Do `x` only if `p` holds. -/
def when (p : Prop) [Decidable p] (x : Trace ω Unit) : Trace ω Unit := if p then x else pure ()

@[simp] theorem value_when (p : Prop) [Decidable p] (x : Trace ω Unit) : (when p x).value = () := rfl
@[simp] theorem log_when (p : Prop) [Decidable p] (x : Trace ω Unit) :
    (when p x).log = if p then x.log else [] := by
  unfold when; split <;> rfl

/-- Do `f a` if the option holds `a`. -/
def whenSome (o : Option α) (f : α → Trace ω Unit) : Trace ω Unit :=
  match o with
  | some a => f a
  | none => pure ()

@[simp] theorem value_whenSome (o : Option α) (f : α → Trace ω Unit) : (whenSome o f).value = () := rfl
@[simp] theorem whenSome_some (a : α) (f : α → Trace ω Unit) : whenSome (some a) f = f a := rfl
@[simp] theorem whenSome_none (f : α → Trace ω Unit) : whenSome none f = pure () := rfl

/-- A loop that is run for its effects: those of each round in turn. -/
def each (xs : List α) (f : α → Trace ω Unit) : Trace ω Unit :=
  ⟨(), xs.flatMap fun a => (f a).log⟩

@[simp] theorem value_each (xs : List α) (f : α → Trace ω Unit) : (each xs f).value = () := rfl
@[simp] theorem log_each (xs : List α) (f : α → Trace ω Unit) :
    (each xs f).log = xs.flatMap fun a => (f a).log := rfl

/-- A loop that collects a result from each round, with the rounds' effects in turn. -/
def collect (xs : List α) (f : α → Trace ω β) : Trace ω (List β) :=
  ⟨xs.map fun a => (f a).value, xs.flatMap fun a => (f a).log⟩

@[simp] theorem value_collect (xs : List α) (f : α → Trace ω β) :
    (collect xs f).value = xs.map fun a => (f a).value := rfl
@[simp] theorem log_collect (xs : List α) (f : α → Trace ω β) :
    (collect xs f).log = xs.flatMap fun a => (f a).log := rfl

/-- `each` is the monadic loop: one round, then the rest. -/
theorem each_cons (a : α) (xs : List α) (f : α → Trace ω Unit) :
    each (a :: xs) f = (do f a; each xs f) := by
  ext1 <;> simp

/-- A loop depends on what the rounds do, not on how they are written. -/
theorem collect_congr {xs : List α} {f g : α → Trace ω β} (h : ∀ x ∈ xs, f x = g x) : collect xs f = collect xs g := by
  ext1
  · exact List.map_congr_left fun x hx => congrArg value (h x hx)
  · exact List.flatMap_congr fun x hx => congrArg log (h x hx)

/-- `collect` is the monadic loop: one round, then the rest. -/
theorem collect_cons (a : α) (xs : List α) (f : α → Trace ω β) :
    collect (a :: xs) f = (do let b ← f a; let bs ← collect xs f; pure (b :: bs)) := by
  ext1 <;> simp

end Trace

end GccXml
