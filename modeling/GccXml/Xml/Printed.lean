import GccXml.Xml.CompletePhase

namespace GccXml

/-! # `Xml.Printed` — what a whole run prints

The set of nodes that a run registers, and the completeness it leaves them with, do not depend on the order in which
the queue is worked off: they are the closure `Reached` of the start requests. A run prints every node of it, at last
with the completeness the node has at the end.

`Reached` is an induction over requests, with the completeness that each asks for. Both directions are invariants of
the dump loop. `OnlyReached`: what has an index was reached, with the completeness that it has, and so was what is
printed. `NoneLost`: a node that is ready to be printed is in the queue or was printed with the completeness that it
has now; in the first phase only complete nodes are ready, in the second one all that have an index. The lemmas come in
the order of the code: one call of `xml_add_node_real`, the effects of printing a node, a round of the loop, the start,
the switch between the phases.

`Running` collects the invariants of a run in one structure, so that a run is looked at once. Of its end,
`PhasesEnd.index_iff`, `complete_iff` and `mem_dumped_iff` say in terms of `Reached` what was registered, what is
complete and what was printed. -/

open DumpInfo

section
variable {Node : Type} [DecidableEq Node] {tu : TranslationUnit Node} {starts : List Node}

variable (tu starts) in
/-- **What the run registers**: the nodes registered by the start requests, and by the requests of a node that was
    reached, each with the completeness of the request. -/
inductive Reached : Node → Bool → Prop
  | start {m r : Node} : m ∈ starts → r ∈ registered tu m true → Reached r true
  | issued {k m r : Node} {d c : Bool} :
      Reached k d → (m, c) ∈ issues tu k d → r ∈ registered tu m c → Reached r c

/-- The complete set is reached as complete. -/
theorem CompleteSet.reached {n : Node} (h : CompleteSet tu starts n) : Reached tu starts n true := by
  have hclosed : ClosedUnderRequests tu starts fun n => Reached tu starts n true :=
    ⟨fun _ hm _ hr => .start hm hr, fun _ hn _ hm _ hr => .issued hn hm hr⟩
  exact CompleteSet.least hclosed h

/-! ## What is registered was reached -/

/-- Indexed nodes and printed nodes were reached, with the completeness they have or were printed with. -/
structure OnlyReached (tu : TranslationUnit Node) (starts : List Node) (s : DumpInfo Node) : Prop where
  indexed : ∀ n, s.index n ≠ 0 → Reached tu starts n (s.complete n)
  dumped : ∀ d ∈ s.dumped, Reached tu starts d.1 d.2

theorem OnlyReached.addNodeReal {s : DumpInfo Node} (h : OnlyReached tu starts s) (hc : s.Coherent) {r : Node}
    {c : Bool} (hr : Reached tu starts r c) : OnlyReached tu starts (s.addNodeReal r c) where
  indexed n hn := by
    rw [complete_addNodeReal hc]
    by_cases hnr : n = r
    · subst hnr
      cases hcn : s.complete n with
      | true =>
          have hidx := hc.index_of_complete hcn
          simpa [hcn] using h.indexed n hidx
      | false => simpa using hr
    · have hidx : s.index n ≠ 0 := by simpa [index_addNodeReal, hnr] using hn
      simpa [hnr] using h.indexed n hidx
  dumped d hd := h.dumped d (by simpa using hd)

theorem OnlyReached.execAll {s : DumpInfo Node} (h : OnlyReached tu starts s) (hc : s.Coherent)
    {log : List (Action Node)}
    (hlog : ∀ m c, .addNode m c ∈ log → ∀ r ∈ registered tu m c, Reached tu starts r c) :
    OnlyReached tu starts (s.execAll tu log) := by
  have hboth := @execAll_induct _ _ tu (fun s => s.Coherent ∧ OnlyReached tu starts s) log
    (fun s m c hm r hr hs => ⟨hs.1.addNodeReal r c, hs.2.addNodeReal hs.1 (hlog m c hm r hr)⟩)
    (fun s frag hs => ⟨hs.1.write frag, hs.2.indexed, hs.2.dumped⟩)
    (fun s name _ hs => by
      have hco := hs.1.queueFile name
      obtain ⟨fi, fq, fn, heq⟩ := queueFile_eq s name
      rw [heq] at hco ⊢
      exact ⟨hco, hs.2.indexed, hs.2.dumped⟩) s ⟨hc, h⟩
  exact hboth.2

/-- A round of `xml_dump` registers what the printed node requests, and so only what is reached. -/
theorem OnlyReached.round {s : DumpInfo Node} (h : OnlyReached tu starts s) (hc : s.Coherent) {n : Node}
    {rest : List Node} (hq : s.queue = n :: rest) :
    OnlyReached tu starts (xmlDumpNode tu { s with queue := rest } n) := by
  have hn : Reached tu starts n (s.complete n) :=
    h.indexed n (hc.queued n (by rw [hq]; exact List.mem_cons_self))
  have hpop : OnlyReached tu starts
      { s with queue := rest, dumped := s.dumped ++ [(n, s.complete n)] } := by
    refine ⟨h.indexed, fun d hd => ?_⟩
    rcases List.mem_append.mp hd with hd | hd
    · exact h.dumped d hd
    · rw [List.mem_singleton.mp hd]; exact hn
  exact hpop.execAll (hc.pop hq _) fun m c hm r hr => .issued hn (mem_issues.mpr hm) hr

theorem OnlyReached.start : OnlyReached tu starts (startDump tu starts) := by
  have hinit : OnlyReached tu starts ({} : DumpInfo Node) :=
    ⟨fun n hn => absurd (by simp [index, dumpNode]) hn, fun d hd => by simp at hd⟩
  refine hinit.execAll .init fun m c hm r hr => ?_
  simp only [startLog, List.mem_append, List.mem_map] at hm
  rcases hm with ⟨k, hk, he⟩ | ⟨frag, _, he⟩
  · cases he; exact .start hk hr
  · cases he

/-! ## What is registered gets printed -/

/-- Every node that has become ready to print waits in the queue or was printed as it is now. In the complete phase
    a node is ready when it is complete, in the incomplete phase when it has an index. -/
def NoneLost (s : DumpInfo Node) : Prop :=
  ∀ n, s.index n ≠ 0 → (s.requireComplete = true → s.complete n = true) → n ∈ s.queue ∨ (n, s.complete n) ∈ s.dumped

theorem NoneLost.addNodeReal {s : DumpInfo Node} (h : NoneLost s) (hc : s.Coherent) (r : Node) (c : Bool) :
    NoneLost (s.addNodeReal r c) := by
  intro n hn hready
  rw [requireComplete_addNodeReal] at hready
  rw [complete_addNodeReal hc] at hready ⊢
  rw [queue_addNodeReal hc, dumped_addNodeReal, List.mem_append]
  by_cases hnr : n = r
  · subst hnr
    by_cases hnew : (c && !s.complete n) || (s.index n = 0 && !s.requireComplete)
    · rw [if_pos hnew]
      exact Or.inl (Or.inr (List.mem_singleton.mpr rfl))
    · -- the node is neither new nor newly complete, so it is as it was
      have hidx : s.index n ≠ 0 := by
        intro hi
        have hcomp := hc.complete_eq_false hi
        cases c <;> cases hrc : s.requireComplete <;> simp_all
      have hsame : (s.complete n || (decide (n = n) && c)) = s.complete n := by
        cases hcn : s.complete n <;> cases c <;> simp_all
      rw [hsame] at hready ⊢
      rcases h n hidx hready with hq | hd
      · exact Or.inl (Or.inl hq)
      · exact Or.inr hd
  · have hidx : s.index n ≠ 0 := by simpa [index_addNodeReal, hnr] using hn
    simp only [hnr, decide_false, Bool.false_and, Bool.or_false] at hready ⊢
    rcases h n hidx hready with hq | hd
    · exact Or.inl (Or.inl hq)
    · exact Or.inr hd

theorem NoneLost.execAll {s : DumpInfo Node} (h : NoneLost s) (hc : s.Coherent) (log : List (Action Node)) :
    NoneLost (s.execAll tu log) := by
  have hboth := @execAll_induct _ _ tu (fun s => s.Coherent ∧ NoneLost s) log
    (fun s _ c _ r _ hs => ⟨hs.1.addNodeReal r c, hs.2.addNodeReal hs.1 r c⟩)
    (fun s frag hs => ⟨hs.1.write frag, hs.2⟩)
    (fun s name _ hs => by
      have hco := hs.1.queueFile name
      obtain ⟨fi, fq, fn, heq⟩ := queueFile_eq s name
      rw [heq] at hco ⊢
      exact ⟨hco, hs.2⟩) s ⟨hc, h⟩
  exact hboth.2

theorem NoneLost.round {s : DumpInfo Node} (h : NoneLost s) (hc : s.Coherent) {n : Node} {rest : List Node}
    (hq : s.queue = n :: rest) : NoneLost (xmlDumpNode tu { s with queue := rest } n) := by
  have hpop : NoneLost { s with queue := rest, dumped := s.dumped ++ [(n, s.complete n)] } := by
    intro m hm hready
    show m ∈ rest ∨ (m, s.complete m) ∈ s.dumped ++ [(n, s.complete n)]
    rcases h m hm hready with hmq | hd
    · rw [hq] at hmq
      rcases List.mem_cons.mp hmq with rfl | hmq
      · exact Or.inr (List.mem_append_right _ (List.mem_singleton.mpr rfl))
      · exact Or.inl hmq
    · exact Or.inr (List.mem_append_left _ hd)
  exact hpop.execAll (hc.pop hq _) _

theorem NoneLost.start : NoneLost (startDump tu starts) := by
  have hinit : NoneLost ({} : DumpInfo Node) := fun n hn => absurd (by simp [index, dumpNode]) hn
  exact hinit.execAll .init _

omit [DecidableEq Node] in
theorem NoneLost.startIncomplete {s : DumpInfo Node} (h : NoneLost s) (hc : s.Coherent) (hq : s.queue = []) :
    NoneLost (startIncomplete tu s) := by
  intro n hn _
  by_cases hcn : s.complete n = true
  · rcases h n hn fun _ => hcn with hmq | hd
    · rw [hq] at hmq; simp at hmq
    · exact Or.inr hd
  · exact Or.inl ((mem_queue_startIncomplete hc hq).mpr ⟨hn, by simpa using hcn⟩)

/-! ## The whole run -/

/-- What holds of the state all through a run. -/
structure Running (tu : TranslationUnit Node) (starts : List Node) (s : DumpInfo Node) : Prop where
  coherent : s.Coherent
  onlyReached : OnlyReached tu starts s
  noneLost : NoneLost s
  requested : Requested tu s
  extends_start : Extends (startDump tu starts) s

theorem Running.start : Running tu starts (startDump tu starts) :=
  ⟨startDump_coherent starts, .start, .start, requested_startDump starts, .refl _⟩

/-- A round of `xml_dump` keeps the numbers. -/
theorem DumpInfo.Extends.round {s : DumpInfo Node} (hc : s.Coherent) {n : Node} {rest : List Node} (hq : s.queue = n :: rest) :
    Extends s (xmlDumpNode tu { s with queue := rest } n) := by
  have hlater : Extends { s with queue := rest, dumped := s.dumped ++ [(n, s.complete n)] }
      (xmlDumpNode tu { s with queue := rest } n) := .execAll (hc.pop hq _) _
  exact ⟨hlater.index, hlater.complete, hlater.file⟩

theorem Running.round {s : DumpInfo Node} (h : Running tu starts s) {n : Node} {rest : List Node}
    (hq : s.queue = n :: rest) : Running tu starts (xmlDumpNode tu { s with queue := rest } n) :=
  ⟨h.coherent.xmlDumpNode hq, h.onlyReached.round h.coherent hq, h.noneLost.round h.coherent hq,
    requested_round h.coherent h.requested hq, h.extends_start.trans (.round h.coherent hq)⟩

theorem Running.xmlDump {fuel : Nat} {s s' : DumpInfo Node} (h : Running tu starts s)
    (hrun : xmlDump tu fuel s = some s') : Running tu starts s' ∧ s'.queue = [] :=
  xmlDump_induct (fun _ _ _ hs hq => hs.round hq) h hrun

theorem Running.startIncomplete {s : DumpInfo Node} (h : Running tu starts s)
    (hq : s.queue = []) : Running tu starts (startIncomplete tu s) where
  coherent := startIncomplete_coherent h.coherent hq
  onlyReached := ⟨h.onlyReached.indexed, h.onlyReached.dumped⟩
  noneLost := h.noneLost.startIncomplete h.coherent hq
  requested := h.requested
  extends_start := ⟨h.extends_start.index, h.extends_start.complete, h.extends_start.file⟩

theorem requireComplete_execAll (s : DumpInfo Node) (log : List (Action Node)) :
    (s.execAll tu log).requireComplete = s.requireComplete :=
  @execAll_induct _ _ tu (fun s' => s'.requireComplete = s.requireComplete) log
    (fun _ _ _ _ _ _ h => by simpa using h) (fun _ _ h => h)
    (fun s' name _ h => by obtain ⟨_, _, _, heq⟩ := queueFile_eq s' name; rw [heq]; exact h) s rfl

/-- The phase does not change while the queue is worked off. -/
theorem requireComplete_xmlDump {fuel : Nat} {s s' : DumpInfo Node} (hrun : xmlDump tu fuel s = some s') :
    s'.requireComplete = s.requireComplete :=
  (@xmlDump_induct _ _ tu (fun s' => s'.requireComplete = s.requireComplete)
    (fun _ _ _ h _ => (requireComplete_execAll _ _).trans h) fuel s s' rfl hrun).1

theorem PhasesEnd.running {s₁ s₂ : DumpInfo Node} (h : PhasesEnd tu starts s₁ s₂) :
    Running tu starts s₂ ∧ s₂.queue = [] ∧ s₂.requireComplete = false := by
  obtain ⟨hrun₁, hq₁⟩ := Running.start.xmlDump h.first
  obtain ⟨hrun₂, hq₂⟩ := (hrun₁.startIncomplete hq₁).xmlDump h.second
  exact ⟨hrun₂, hq₂, requireComplete_xmlDump h.second⟩

/-- The second phase keeps the numbers of the first. -/
theorem PhasesEnd.extends {s₁ s₂ : DumpInfo Node} (h : PhasesEnd tu starts s₁ s₂) : Extends s₁ s₂ := by
  obtain ⟨hrun₁, hq₁⟩ := Running.start.xmlDump h.first
  have hround : ∀ s n rest, s.Coherent ∧ Extends s₁ s → s.queue = n :: rest →
      (xmlDumpNode tu { s with queue := rest } n).Coherent ∧ Extends s₁ (xmlDumpNode tu { s with queue := rest } n) :=
    fun s n rest ⟨hc, hext⟩ hq => ⟨hc.xmlDumpNode hq, hext.trans (.round hc hq)⟩
  have hstart : Extends s₁ (startIncomplete tu s₁) := ⟨fun _ _ => rfl, fun _ hc => hc, fun _ _ hf => hf⟩
  exact (xmlDump_induct hround ⟨startIncomplete_coherent hrun₁.coherent hq₁, hstart⟩ h.second).1.2

/-- At the end of a run every node with an index was printed as it is at the end. -/
theorem PhasesEnd.printed {s₁ s₂ : DumpInfo Node} (h : PhasesEnd tu starts s₁ s₂) {n : Node}
    (hn : s₂.index n ≠ 0) : (n, s₂.complete n) ∈ s₂.dumped := by
  obtain ⟨hrun, hq, hphase⟩ := h.running
  rcases hrun.noneLost n hn (by simp [hphase]) with hmq | hd
  · rw [hq] at hmq; simp at hmq
  · exact hd

/-- **What is reached is registered**: at the end of a run it has an index, and is complete if it was reached as
    complete. -/
theorem PhasesEnd.reached {s₁ s₂ : DumpInfo Node} (h : PhasesEnd tu starts s₁ s₂) {n : Node} {c : Bool}
    (hn : Reached tu starts n c) : s₂.index n ≠ 0 ∧ (c = true → s₂.complete n = true) := by
  obtain ⟨hrun, -, -⟩ := h.running
  induction hn with
  | @start m r hm hr =>
      have hact : Action.addNode m true ∈ startLog tu starts :=
        List.mem_append_left _ (List.mem_map.mpr ⟨m, hm, rfl⟩)
      obtain ⟨hidx, hcomp⟩ := execAll_of_mem Coherent.init hact hr
      exact ⟨hrun.extends_start.index_ne_zero hidx, fun hc => hrun.extends_start.complete r (hcomp hc)⟩
  | @issued k m r d c _ hm hr ih =>
      obtain ⟨hkidx, hkcomp⟩ := ih
      have hk := h.printed hkidx
      -- `k` was printed at least as complete as it was reached, so it made the request
      obtain ⟨c', hcc', hm'⟩ : ∃ c', (c = true → c' = true) ∧ (m, c') ∈ issues tu k (s₂.complete k) := by
        cases d with
        | true => exact ⟨c, id, by rw [hkcomp rfl]; exact hm⟩
        | false =>
            cases hc : s₂.complete k with
            | true => exact issues_mono hm
            | false => exact ⟨c, id, hm⟩
      have hr' : r ∈ registered tu m c' := by
        cases c with
        | true => rw [hcc' rfl]; exact hr
        | false =>
            cases c' with
            | true => exact registered_mono tu hr
            | false => exact hr
      obtain ⟨hidx, hcomp⟩ := hrun.requested k _ hk m c' hm' r hr'
      exact ⟨hidx, fun hc => hcomp (hcc' hc)⟩

/-- A run gives an index to what is reached and to nothing else. -/
theorem PhasesEnd.index_iff {s₁ s₂ : DumpInfo Node} (h : PhasesEnd tu starts s₁ s₂) (n : Node) :
    s₂.index n ≠ 0 ↔ ∃ c, Reached tu starts n c :=
  ⟨fun hn => ⟨_, h.running.1.onlyReached.indexed n hn⟩, fun ⟨_, hn⟩ => (h.reached hn).1⟩

/-- A node is complete at the end of a run if and only if it is reached as complete. -/
theorem PhasesEnd.complete_iff {s₁ s₂ : DumpInfo Node} (h : PhasesEnd tu starts s₁ s₂) (n : Node) :
    s₂.complete n = true ↔ Reached tu starts n true := by
  refine ⟨fun hn => ?_, fun hn => (h.reached hn).2 rfl⟩
  have hrun := h.running.1
  have hreached := hrun.onlyReached.indexed n (hrun.coherent.index_of_complete hn)
  rwa [hn] at hreached

/-- A run prints what is reached and nothing else. -/
theorem PhasesEnd.mem_dumped_iff {s₁ s₂ : DumpInfo Node} (h : PhasesEnd tu starts s₁ s₂) {n : Node} :
    n ∈ s₂.dumped.map (·.1) ↔ ∃ c, Reached tu starts n c := by
  constructor
  · intro hn
    obtain ⟨d, hd, rfl⟩ := List.mem_map.mp hn
    exact ⟨d.2, h.running.1.onlyReached.dumped d hd⟩
  · rintro ⟨c, hn⟩
    exact List.mem_map.mpr ⟨_, h.printed (h.reached hn).1, rfl⟩

/-- What holds of every printed node is what holds of every node that is reached. -/
theorem PhasesEnd.forall_dumped_iff {s₁ s₂ : DumpInfo Node} (h : PhasesEnd tu starts s₁ s₂) (P : Node → Prop) :
    (∀ d ∈ s₂.dumped, P d.1) ↔ ∀ n c, Reached tu starts n c → P n := by
  rw [← List.forall_mem_map (f := Prod.fst)]
  exact ⟨fun hall n c hn => hall n (h.mem_dumped_iff.mpr ⟨c, hn⟩), fun hall n hn =>
    (h.mem_dumped_iff.mp hn).elim (hall n)⟩

end

end GccXml
