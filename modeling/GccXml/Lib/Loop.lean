import Mathlib.Logic.Relation

namespace GccXml

/-! # `Lib.Loop` — loops that are left from the middle

A loop is given by what one pass through its test and body does to the state: it goes round again from a new state, or
it is left with a result. A loop runs on fuel, so that it can be executed; that it ends means that some fuel is enough.
A loop ends if every pass lowers a measure, and it does not if it reaches states that it cannot leave.

`Result` is the meaning of a loop without its fuel: it is what some fuel gives, there is at most one, and more fuel
changes nothing. The rules are the usual ones. The invariant rule comes for the states that are reached and for the
result, `loopRun_of_variant` takes an invariant with a measure and gives the fuel that is enough, and
`not_ends_of_stuck` shows that a loop runs for ever. -/

/-- What one pass through a loop does. -/
inductive Pass (σ β : Type) where
  | again (s : σ)
  | leave (b : β)
  deriving DecidableEq

/-- Run a loop from `s`, for at most `fuel` passes. -/
def loopRun {σ β : Type} (pass : σ → Pass σ β) : Nat → σ → Option β
  | 0, _ => none
  | fuel + 1, s =>
      match pass s with
      | .again s' => loopRun pass fuel s'
      | .leave b => some b

namespace Loop

variable {σ β : Type} {pass : σ → Pass σ β}

/-- One pass leads from `s` to `s'`. -/
def Next (pass : σ → Pass σ β) (s s' : σ) : Prop := pass s = .again s'

/-- Some number of passes lead from `s` to `s'`. -/
def Reaches (pass : σ → Pass σ β) : σ → σ → Prop := Relation.ReflTransGen (Next pass)

/-- The loop that starts in `s` ends with the result `b`. -/
def Result (pass : σ → Pass σ β) (s : σ) (b : β) : Prop := ∃ fuel, loopRun pass fuel s = some b

/-- The loop that starts in `s` ends. -/
def Ends (pass : σ → Pass σ β) (s : σ) : Prop := ∃ b, Result pass s b

/-! ## Fuel -/

theorem loopRun_again {s s' : σ} (h : pass s = .again s') (fuel : Nat) :
    loopRun pass (fuel + 1) s = loopRun pass fuel s' := by
  rw [loopRun, h]

theorem loopRun_leave {s : σ} {b : β} (h : pass s = .leave b) (fuel : Nat) :
    loopRun pass (fuel + 1) s = some b := by
  rw [loopRun, h]

/-- More fuel gives the same result. -/
theorem loopRun_mono {fuel fuel' : Nat} {s : σ} {b : β} (h : loopRun pass fuel s = some b) (hle : fuel ≤ fuel') :
    loopRun pass fuel' s = some b := by
  induction fuel generalizing fuel' s with
  | zero => cases h
  | succ fuel ih =>
      obtain ⟨k, rfl⟩ : ∃ k, fuel' = k + 1 := ⟨fuel' - 1, by omega⟩
      cases hp : pass s with
      | again s' =>
          rw [loopRun_again hp] at h ⊢
          exact ih h (by omega)
      | leave b' =>
          rw [loopRun_leave hp] at h ⊢
          exact h

theorem Result.of_leave {s : σ} {b : β} (h : pass s = .leave b) : Result pass s b := ⟨1, loopRun_leave h 0⟩

theorem Result.of_again {s s' : σ} {b : β} (h : pass s = .again s') (hr : Result pass s' b) : Result pass s b := by
  obtain ⟨fuel, hf⟩ := hr
  exact ⟨fuel + 1, (loopRun_again h fuel).trans hf⟩

theorem Result.again {s s' : σ} {b : β} (hr : Result pass s b) (h : pass s = .again s') : Result pass s' b := by
  obtain ⟨fuel, hf⟩ := hr
  cases fuel with
  | zero => cases hf
  | succ fuel => exact ⟨fuel, (loopRun_again h fuel).symm.trans hf⟩

/-- A loop has at most one result. -/
theorem Result.unique {s : σ} {b b' : β} (h : Result pass s b) (h' : Result pass s b') : b = b' := by
  obtain ⟨fuel, hf⟩ := h
  obtain ⟨fuel', hf'⟩ := h'
  have hmax := loopRun_mono hf (Nat.le_max_left fuel fuel')
  rw [loopRun_mono hf' (Nat.le_max_right fuel fuel')] at hmax
  exact (Option.some.inj hmax).symm

/-! ## Runs -/

/-- A result is that of a reached state whose pass leaves the loop. -/
theorem result_iff {s : σ} {b : β} : Result pass s b ↔ ∃ s', Reaches pass s s' ∧ pass s' = .leave b := by
  constructor
  · rintro ⟨fuel, hf⟩
    induction fuel generalizing s with
    | zero => cases hf
    | succ fuel ih =>
        cases hp : pass s with
        | again s' =>
            rw [loopRun_again hp] at hf
            obtain ⟨t, ht, hl⟩ := ih hf
            exact ⟨t, .head hp ht, hl⟩
        | leave b' =>
            rw [loopRun_leave hp] at hf
            cases hf
            exact ⟨s, .refl, hp⟩
  · rintro ⟨t, ht, hl⟩
    induction ht using Relation.ReflTransGen.head_induction_on with
    | refl => exact .of_leave hl
    | head hstep _ ih => exact .of_again hstep ih

/-- The states on the way to a result all give that result. -/
theorem Result.of_reaches {s s' : σ} {b : β} (hr : Result pass s b) (h : Reaches pass s s') : Result pass s' b := by
  induction h with
  | refl => exact hr
  | tail _ hstep ih => exact ih.again hstep

/-- **Invariant rule**, for the states. What a pass keeps holds in every reached state. -/
theorem Reaches.invariant {inv : σ → Prop} (hpass : ∀ s s', inv s → pass s = .again s' → inv s') {s s' : σ}
    (h : Reaches pass s s') (hs : inv s) : inv s' := by
  induction h with
  | refl => exact hs
  | tail _ hstep ih => exact hpass _ _ ih hstep

/-- **Invariant rule**, for the result. -/
theorem Result.invariant {inv : σ → Prop} {post : β → Prop} (hpass : ∀ s s', inv s → pass s = .again s' → inv s')
    (hleave : ∀ s b, inv s → pass s = .leave b → post b) {s : σ} {b : β} (h : Result pass s b) (hs : inv s) :
    post b := by
  obtain ⟨t, ht, hl⟩ := result_iff.mp h
  exact hleave t b (ht.invariant hpass hs) hl

/-! ## Termination -/

/-- **Variant rule.** A loop whose passes keep `inv` and lower `size` needs at most `size s + 1` of them. -/
theorem loopRun_of_variant (inv : σ → Prop) (size : σ → Nat)
    (hpass : ∀ s s', inv s → pass s = .again s' → inv s' ∧ size s' < size s) {fuel : Nat} {s : σ} (hs : inv s)
    (hfuel : size s < fuel) : ∃ b, loopRun pass fuel s = some b := by
  induction fuel generalizing s with
  | zero => omega
  | succ fuel ih =>
      cases hp : pass s with
      | again s' =>
          rw [loopRun_again hp]
          obtain ⟨hs', hlt⟩ := hpass s s' hs hp
          exact ih hs' (by omega)
      | leave b => exact ⟨b, loopRun_leave hp fuel⟩

/-- A loop that reaches a set of states which it cannot leave does not end. -/
theorem not_ends_of_stuck {stuck : σ → Prop} (hstuck : ∀ t, stuck t → ∃ t', pass t = .again t' ∧ stuck t')
    {s s' : σ} (h : Reaches pass s s') (hs' : stuck s') : ¬ Ends pass s := by
  have hrun : ∀ fuel t, stuck t → loopRun pass fuel t = none := by
    intro fuel
    induction fuel with
    | zero => exact fun _ _ => rfl
    | succ fuel ih =>
        intro t ht
        obtain ⟨t', hp, ht'⟩ := hstuck t ht
        rw [loopRun_again hp, ih t' ht']
  rintro ⟨b, hr⟩
  obtain ⟨fuel, hf⟩ := hr.of_reaches h
  rw [hrun fuel s' hs'] at hf
  cases hf

end Loop

end GccXml
