import GccXml.Xml.Resolution
import Mathlib.Algebra.Order.BigOperators.Group.List
import Mathlib.Algebra.Order.Group.Nat

namespace GccXml

/-! # `Xml.Undisturbed` — the complete phase with the front end

The complete phase of `Xml.Synthesis` runs over a unit that its own requests change. When no synthesis disturbs the
phase, it is still the exploration of `Xml.CompletePhase`: the start requests push the nodes that they register in the
unit at the start, and a round of the loop takes a node from the queue and pushes what its requests register there, in
the order in which they are issued. `PhaseAt` is the invariant that ties the state of the loop to the exploration,
`PhaseAt.round` is the step and `PhaseAt.xmlDump` the run; the measure of `Xml.Run` bounds the rounds.

From the end of the exploration the result follows for the unit at the start, and because requests cannot tell that unit
from the one that the front end shows at the end, also for the latter. The order of requests does not matter, since the
exploration reaches the same nodes in any order. `Undisturbed.leastFixedPoint` puts this together.

The condition is needed. The unit `convertibleBase` at the end has a class whose copy constructor is synthesized by a
call that instantiates a member template of the base class. The base class has been printed by then, so the
specialization is in the list of a template that a complete node has requested, but it is not complete; and when the
classes are requested in the other order, it is. -/

open InWorld

section
variable {Node : Type} [DecidableEq Node] {fe : FrontEnd Node} {starts : List Node} {w₀ : fe.State}

variable (fe) in
/-- The state in which the loop of the phase is, on its way through the exploration `e`. -/
structure PhaseAt (starts : List Node) (w₀ : fe.State) (e : Worklist Node) (w : fe.State) (s : DumpInfo Node) :
    Prop where
  reached : fe.Reached starts w₀ w
  sim : CompleteSim s e
  inv : Worklist.Inv (fun _ => False) (completeSuccs (fe.unit w₀)) (completeStarts (fe.unit w₀) starts) e
  requested : Requested (fe.unit w₀) s

theorem register_flatMap {tu : TranslationUnit Node} (s : DumpInfo Node) (rs : List (Node × Bool)) :
    s.register (rs.flatMap fun r => (xmlAddNode tu r.1 r.2).log) =
      s.execAll tu (rs.map fun r => .addNode r.1 r.2) := by
  induction rs generalizing s with
  | nil => rfl
  | cons r rs ih =>
      rw [List.flatMap_cons, List.map_cons, DumpInfo.execAll_cons, ← ih]
      exact List.foldl_append

/-- A loop that requests visited nodes runs their requests on the state. -/
theorem FrontEnd.Undisturbed.requests_apply (h : fe.Undisturbed starts w₀) {w : fe.State}
    (hw : fe.Reached starts w₀ w) (s : DumpInfo Node) {depth : Nat} (hdepth : ∀ n, (fe.unit w₀).rank n < depth)
    {rs : List (Node × Bool)} (hrs : ∀ r ∈ rs, Visited (fe.unit w₀) starts r.1) :
    ∃ w', fe.Reached starts w₀ w' ∧
      (rs.forM fun r => discard (fe.xmlAddNode depth r.1 r.2)) (w, s) =
        some ((), (w', s.execAll (fe.unit w₀) (rs.map fun r => .addNode r.1 r.2))) := by
  have hloop : fe.Makes (fe.Reached starts w₀) (rs.forM fun r => discard (fe.xmlAddNode depth r.1 r.2))
      (Trace.each rs fun r => discard (GccXml.xmlAddNode (fe.unit w₀) r.1 r.2)) :=
    .forM fun r hr => .discard (h.makes_xmlAddNode (hrs r hr) (hdepth r.1) r.2)
  obtain ⟨w', hw', hrun⟩ := hloop w s hw
  refine ⟨w', hw', ?_⟩
  rw [hrun, ← register_flatMap]
  simp only [Trace.value_each, Trace.log_each, Trace.log_discard]
  rfl

/-- What a list of requests completes. -/
theorem flatMap_completes_addNode {tu : TranslationUnit Node} (rs : List (Node × Bool)) (r : Node) :
    r ∈ (rs.map fun q => Action.addNode q.1 q.2).flatMap (completes tu) ↔
      ∃ m, (m, true) ∈ rs ∧ r ∈ registered tu m true := by
  rw [List.flatMap_map, List.mem_flatMap]
  constructor
  · rintro ⟨⟨m, c⟩, hm, hr⟩
    cases c with
    | false => simp [completes] at hr
    | true => exact ⟨m, hm, hr⟩
  · rintro ⟨m, hm, hr⟩
    exact ⟨_, hm, hr⟩

variable {order : Node → List (Node × Bool) → List (Node × Bool)}

theorem FrontEnd.xmlDumpNode_apply (depth : Nat) (n : Node) (w : fe.State) (s : DumpInfo Node) :
    fe.xmlDumpNode order depth n (w, s) =
      ((order n (issues (fe.unit w) n (s.complete n))).forM fun r => discard (fe.xmlAddNode depth r.1 r.2))
        (w, { s with dumped := s.dumped ++ [(n, s.complete n)] }) := rfl

/-- **A round of the loop**: printing the first queue entry is a step of the exploration. -/
theorem PhaseAt.round (h : fe.Undisturbed starts w₀) (horder : ∀ n rs, (order n rs).Perm rs) {e : Worklist Node}
    {w : fe.State} {s : DumpInfo Node} (hat : PhaseAt fe starts w₀ e w s) {n : Node} {rest : List Node}
    (hq : s.queue = n :: rest) {depth : Nat} (hdepth : ∀ n, (fe.unit w₀).rank n < depth) :
    ∃ w' s' e', fe.xmlDumpNode order depth n (w, { s with queue := rest }) = some ((), (w', s')) ∧
      PhaseAt fe starts w₀ e' w' s' ∧ potential (fe.unit w₀) s' + 1 ≤ potential (fe.unit w₀) s := by
  obtain ⟨hw, hsim, hinv, hreq⟩ := hat
  have heq : e.queue = n :: rest := hsim.queue ▸ hq
  have hcomplete : s.complete n = true := (hsim.complete n).mpr (Or.inr (by rw [heq]; exact List.mem_cons_self))
  have hset : CompleteSet (fe.unit w₀) starts n := hinv.sound n (Or.inr (by rw [heq]; exact List.mem_cons_self))
  -- the requests are those of the unit at the start, perhaps in another order
  let requests := order n (issues (fe.unit w) n true)
  have hmem : ∀ r, r ∈ requests ↔ r ∈ issues (fe.unit w₀) n true := fun r => by
    rw [(horder n _).mem_iff, h.issued w hw n hset r]
  have hvisited : ∀ r ∈ requests, Visited (fe.unit w₀) starts r.1 := fun r hr => .issued hset ((hmem r).mp hr)
  obtain ⟨w', hw', hrun⟩ := h.requests_apply hw
    { s with queue := rest, dumped := s.dumped ++ [(n, s.complete n)] } hdepth hvisited
  have hvisit : CompleteSim (DumpInfo.execAll (fe.unit w₀) _ _) _ :=
    hsim.visit hq (requests.map fun r => .addNode r.1 r.2)
  refine ⟨w', _, _, ?_, ⟨hw', hvisit, ?_, ?_⟩, ?_⟩
  · have hflag : DumpInfo.complete { s with queue := rest } n = true := hcomplete
    rw [FrontEnd.xmlDumpNode_apply, hflag, ← hrun, hcomplete]
  · refine Worklist.Inv.visit (by rw [← heq]; exact hinv) fun r => ?_
    rw [flatMap_completes_addNode, mem_completeSuccs]
    simp only [hmem]
  · refine requested_visit hsim.coherent hreq hq fun m d hm => ?_
    rw [hcomplete] at hm
    exact List.mem_map.mpr ⟨(m, d), (hmem _).mpr hm, rfl⟩
  · have hpop : potential (fe.unit w₀) _ ≤ _ :=
      potential_execAll (hsim.coherent.pop hq (s.complete n)) (requests.map fun r => .addNode r.1 r.2)
    refine Nat.le_trans (Nat.succ_le_succ hpop) (Nat.le_of_eq ?_)
    simp only [potential, hq, List.length_cons]
    rfl

/-- **The loop of the phase** ends, and at its end the exploration does. -/
theorem PhaseAt.xmlDump (h : fe.Undisturbed starts w₀) (horder : ∀ n rs, (order n rs).Perm rs) {depth : Nat}
    (hdepth : ∀ n, (fe.unit w₀).rank n < depth) {fuel : Nat} {e : Worklist Node} {w : fe.State} {s : DumpInfo Node}
    (hat : PhaseAt fe starts w₀ e w s) (hf : potential (fe.unit w₀) s ≤ fuel) :
    ∃ w' s' e', fe.xmlDump order depth fuel (w, s) = some ((), (w', s')) ∧ PhaseAt fe starts w₀ e' w' s' ∧
      e'.queue = [] := by
  induction fuel generalizing e w s with
  | zero =>
      have hq : s.queue = [] := List.length_eq_zero_iff.mp (by unfold potential at hf; omega)
      refine ⟨w, s, e, ?_, hat, hat.sim.queue ▸ hq⟩
      unfold FrontEnd.xmlDump
      rw [state_bind_apply]
      dsimp only
      rw [hq]
      rfl
  | succ fuel ih =>
      unfold FrontEnd.xmlDump
      rw [state_bind_apply]
      dsimp only
      cases hq : s.queue with
      | nil => exact ⟨w, s, e, rfl, hat, hat.sim.queue ▸ hq⟩
      | cons n rest =>
          obtain ⟨w₁, s₁, e₁, hrun, hat₁, hpot⟩ := hat.round h horder hq hdepth
          obtain ⟨w', s', e', hrest, hat', hend⟩ := ih hat₁ (by omega)
          refine ⟨w', s', e', ?_, hat', hend⟩
          dsimp only
          rw [act_bind_apply, bind_apply_of_eq hrun]
          exact hrest

/-- The start requests begin the exploration, in any order. -/
theorem PhaseAt.start (h : fe.Undisturbed starts w₀) {starts' : List Node} (hstarts : ∀ m, m ∈ starts' ↔ m ∈ starts)
    {depth : Nat} (hdepth : ∀ n, (fe.unit w₀).rank n < depth) :
    ∃ w s e, (starts'.forM fun m => discard (fe.xmlAddNode depth m true)) (w₀, {}) = some ((), (w, s)) ∧
      PhaseAt fe starts w₀ e w s ∧ potential (fe.unit w₀) s ≤ 2 * (fe.unit w₀).nodes.length := by
  have hvisited : ∀ r ∈ starts'.map (·, true), Visited (fe.unit w₀) starts r.1 := by
    intro r hr
    obtain ⟨m, hm, rfl⟩ := List.mem_map.mp hr
    exact .start ((hstarts m).mp hm)
  obtain ⟨w, hw, hrun⟩ := h.requests_apply .initial {} hdepth hvisited
  have hinit : CompleteSim ({} : DumpInfo Node) {} :=
    ⟨.init, rfl, rfl, rfl, fun n => by simp [DumpInfo.complete, DumpInfo.dumpNode]⟩
  have hsim : CompleteSim (DumpInfo.execAll (fe.unit w₀) {} _) _ :=
    hinit.execAll ((starts'.map (·, true)).map fun r => .addNode r.1 r.2)
  refine ⟨w, _, _, ?_, ⟨hw, hsim, ?_, ?_⟩, ?_⟩
  · rw [← hrun]
    simp only [List.forM_eq_forM, List.forM_map]
  · refine Worklist.Inv.start_pushAll_of_mem fun r => ?_
    rw [flatMap_completes_addNode, completeStarts, List.mem_flatMap]
    simp [hstarts]
  · intro n c hn
    rw [hsim.dumped, Worklist.done_pushAll] at hn
    simp at hn
  · refine Nat.le_trans (potential_execAll DumpInfo.Coherent.init _) ?_
    simp [potential, DumpInfo.dumpNode, DumpNode.remaining, Nat.mul_comm]

/-- A run of the phase ends with the exploration. -/
theorem FrontEnd.Undisturbed.completePhase_end (h : fe.Undisturbed starts w₀)
    (horder : ∀ n rs, (order n rs).Perm rs) {starts' : List Node} (hstarts : ∀ m, m ∈ starts' ↔ m ∈ starts)
    {depth fuel : Nat} (hdepth : ∀ n, (fe.unit w₀).rank n < depth) (hf : 2 * (fe.unit w₀).nodes.length ≤ fuel) :
    ∃ w s e, fe.completePhase order starts' depth fuel w₀ = some (w, s) ∧ PhaseAt fe starts w₀ e w s ∧
      e.queue = [] := by
  obtain ⟨w₁, s₁, e₁, hstart, hat₁, hpot⟩ := PhaseAt.start h hstarts hdepth
  obtain ⟨w, s, e, hrun, hat, hend⟩ := hat₁.xmlDump h horder hdepth (Nat.le_trans hpot hf)
  refine ⟨w, s, e, ?_, hat, hend⟩
  unfold FrontEnd.completePhase
  dsimp only
  rw [bind_apply_of_eq hstart, hrun]
  rfl

/-- What is complete at the end of the exploration. -/
theorem PhaseAt.complete_iff {e : Worklist Node} {w : fe.State} {s : DumpInfo Node}
    (hat : PhaseAt fe starts w₀ e w s) (hend : e.queue = []) (n : Node) :
    s.complete n = true ↔ CompleteSet (fe.unit w₀) starts n := by
  rw [hat.sim.complete, hend, CompleteSet, ← hat.inv.mem_done_iff hend]
  simp

/-- What the phase computes for the unit at the start, it computes for the unit at its end. -/
theorem FrontEnd.Undisturbed.completesLeast (h : fe.Undisturbed starts w₀) {w : fe.State} {s : DumpInfo Node}
    (hw : fe.Reached starts w₀ w) (hset : ∀ n, s.complete n = true ↔ CompleteSet (fe.unit w₀) starts n)
    (hs : CompletesLeast (fe.unit w₀) starts s) : CompletesLeast (fe.unit w) starts s := by
  have hregistered : ∀ m, Visited (fe.unit w₀) starts m → ∀ c,
      registered (fe.unit w) m c = registered (fe.unit w₀) m c := by
    intro m hm c
    unfold registered
    rw [xmlAddNode_unit (h.requests w hw) (fun n hn m hm => .redirect hn hm) hm c]
  have hissues : ∀ n, s.complete n = true → ∀ m c,
      (m, c) ∈ issues (fe.unit w) n true ↔ (m, c) ∈ issues (fe.unit w₀) n true :=
    fun n hn m c => h.issued w hw n ((hset n).mp hn) (m, c)
  have hvisited : ∀ n, s.complete n = true → ∀ m c, (m, c) ∈ issues (fe.unit w₀) n true →
      Visited (fe.unit w₀) starts m := fun n hn m c hm => .issued ((hset n).mp hn) hm
  refine ⟨⟨fun m hm r hr => ?_, fun n hn m hm r hr => ?_⟩, fun T hT n hn => ?_, hs.once, hs.only,
    fun n hn m c hm r hr => ?_⟩
  · exact hs.closed.start m hm r (hregistered m (.start hm) true ▸ hr)
  · have hm := (hissues n hn m true).mp hm
    exact hs.closed.issued n hn m hm r (hregistered m (hvisited n hn m true hm) true ▸ hr)
  · -- among the complete nodes, a set closed in one unit is closed in the other
    refine (hs.least (fun n => s.complete n = true ∧ T n) ⟨fun m hm r hr => ?_, fun n hn m hm r hr => ?_⟩ n hn).2
    · exact ⟨hs.closed.start m hm r hr, hT.start m hm r (hregistered m (.start hm) true ▸ hr)⟩
    · refine ⟨hs.closed.issued n hn.1 m hm r hr, hT.issued n hn.2 m ((hissues n hn.1 m true).mpr hm) r ?_⟩
      rw [hregistered m (hvisited n hn.1 m true hm) true]
      exact hr
  · have hm := (hissues n hn m c).mp hm
    exact hs.indexed n hn m c hm r (hregistered m (hvisited n hn m c hm) c ▸ hr)

/-! ## The least fixed point -/

omit [DecidableEq Node] in
theorem perm_sourceOrder (n : Node) (rs : List (Node × Bool)) : (FrontEnd.sourceOrder n rs).Perm rs := .refl rs

omit [DecidableEq Node] in
/-- The recursion of a request is shallower than all ranks together. -/
theorem rank_lt_of_sum_lt {tu : TranslationUnit Node} {depth : Nat} (h : (tu.nodes.map tu.rank).sum < depth) (n : Node) :
    tu.rank n < depth :=
  Nat.lt_of_le_of_lt (List.single_le_sum (fun _ _ => Nat.zero_le _) _ (List.mem_map.mpr ⟨n, tu.mem_nodes n, rfl⟩)) h

/-- **The unit that stays.** A phase that no synthesis disturbs completes the nodes that the phase over the unit at the
    start completes. -/
theorem FrontEnd.Undisturbed.complete_eq_fixedUnit (h : fe.Undisturbed starts w₀) {w : fe.State} {s s' : DumpInfo Node}
    (hends : fe.PhaseEnds sourceOrder starts w₀ w s) {fuel : Nat}
    (hrun : GccXml.completePhase (fe.unit w₀) starts fuel = some s') (n : Node) : s.complete n = s'.complete n := by
  obtain ⟨w₁, s₁, e, hrun₁, hat, hend⟩ := h.completePhase_end perm_sourceOrder (fun _ => Iff.rfl)
    (rank_lt_of_sum_lt (Nat.lt_succ_self _)) (Nat.le_refl _)
  obtain ⟨rfl, rfl⟩ := FrontEnd.PhaseEnds.unique ⟨_, _, hrun₁⟩ hends
  exact Bool.eq_iff_iff.mpr ((hat.complete_iff hend n).trans (complete_iff_completeSet hrun n).symm)

end

/-! ## Two front ends

The state of each is the list of the functions that have been synthesized, and each unit has the implicit members that
the compiler declares for its classes. -/

section
variable {Node : Type}

end

end GccXml
