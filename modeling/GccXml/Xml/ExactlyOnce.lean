import GccXml.Xml.Printed

namespace GccXml

/-! # `Xml.ExactlyOnce` — the incomplete phase

Between the phases `xml_queue_incomplete_dump_nodes` queues what was registered and is not complete. As long as the
second `xml_dump` makes incomplete requests only, it is an exploration that never meets the complete set, and so prints
each node once. The one complete request that it can make is the one for an overridden method.

The complete phase is a work list: it prints each complete node once, and when it ends everything that was registered
is either printed or incomplete. The queue of the second phase has the incomplete ones, each once. An incomplete
request adds a node to it only if the node is new, so a node is queued again only by a complete request for one that is
there and incomplete. Such a request is late. It is made for the methods that a virtual function overrides, when the
function itself is printed as incomplete.

Both directions are shown. Without late requests the second phase is the exploration of the graph of incomplete
requests. A late request that registers a node makes it complete after the first phase, so its completeness at the end
is not what it was, or it is printed twice. The unit at the end has a late request, made by a method that is the
context of a local class. -/

open DumpInfo

section
variable {Node : Type} [DecidableEq Node] {tu : TranslationUnit Node} {starts : List Node}

/-! ## Late requests -/

variable (tu) in
/-- Printing `n` as incomplete registers a node as complete: `n` is a virtual function whose `overrides` attribute
    names a method that `xml_add_node` does not decline. -/
def MakesLateRequest (n : Node) : Prop :=
  tu.treeCode n = .functionDecl ∧ ∃ fn ∈ printedOverrides tu n, registered tu fn true ≠ []

variable (tu starts) in
/-- No node that is printed as incomplete makes a late request. -/
def NoLateRequest : Prop :=
  ∀ n, Reached tu starts n false → ¬ CompleteSet tu starts n → ¬ MakesLateRequest tu n

theorem registered_of_not_late {n m : Node} (h : ¬ MakesLateRequest tu n) (hm : (m, true) ∈ issues tu n false) :
    registered tu m true = [] := by
  rw [mem_issues_false_true, overrides_requestTable] at hm
  by_contra hne
  split at hm
  · rename_i hcode
    exact h ⟨hcode, m, hm, hne⟩
  · simp at hm

theorem exists_late {n : Node} (h : MakesLateRequest tu n) :
    ∃ m, (m, true) ∈ issues tu n false ∧ ∃ r, r ∈ registered tu m true := by
  obtain ⟨hcode, fn, hfn, hne⟩ := h
  refine ⟨fn, ?_, List.exists_mem_of_ne_nil _ hne⟩
  rw [mem_issues_false_true, overrides_requestTable, if_pos hcode]
  exact hfn

/-! ## The incomplete phase is an exploration -/

/-- What an effect registers. -/
def registers (tu : TranslationUnit Node) : Action Node → List Node
  | .addNode m c => registered tu m c
  | _ => []

variable (tu) in
/-- What printing `n` as incomplete registers. -/
def incompleteSuccs (n : Node) : List Node := (xmlDumpTreeNode tu n false).log.flatMap (registers tu)

/-- The effect registers nothing as complete. -/
def NotLate (tu : TranslationUnit Node) (a : Action Node) : Prop :=
  ∀ m, a = .addNode m true → registered tu m true = []

/-- The state of the incomplete phase when the exploration is at `w`; `s₁` is the state at the end of the complete
    phase. -/
structure IncompleteSim (s₁ s : DumpInfo Node) (w : Worklist Node) : Prop where
  coherent : s.Coherent
  phase : s.requireComplete = false
  dumped : s.dumped = s₁.dumped ++ w.done.map (·, false)
  queue : s.queue = w.queue
  complete : ∀ n, s.complete n = s₁.complete n
  indexed : ∀ n, s.index n ≠ 0 ↔ w.Met (fun n => s₁.complete n = true) n
  noLate : ∀ r ∈ s.registrations, r.requireComplete = false → r.complete = false

theorem IncompleteSim.addNodeReal {s₁ s : DumpInfo Node} {w : Worklist Node} (h : IncompleteSim s₁ s w)
    (r : Node) :
    IncompleteSim s₁ (s.addNodeReal r false) (w.push (fun n => s₁.complete n = true) r) := by
  have hcomplete : ∀ n, (s.addNodeReal r false).complete n = s₁.complete n := fun n => by
    rw [complete_addNodeReal h.coherent]; simpa using h.complete n
  have hnoLate : ∀ reg ∈ (s.addNodeReal r false).registrations,
      reg.requireComplete = false → reg.complete = false := by
    intro reg hreg
    rw [registrations_addNodeReal] at hreg
    rcases List.mem_append.mp hreg with hreg | hreg
    · exact h.noLate reg hreg
    · rw [List.mem_singleton.mp hreg]; exact fun _ => rfl
  have hindexed : ∀ n, (s.addNodeReal r false).index n ≠ 0 ↔ s.index n ≠ 0 ∨ n = r := by
    intro n
    by_cases hn : n = r
    · subst hn
      exact iff_of_true (index_addNodeReal_ne_zero h.coherent n false) (Or.inr rfl)
    · simp [index_addNodeReal, hn]
  have hqueue := queue_addNodeReal h.coherent r false
  by_cases hr : s.index r = 0
  · -- a new node: it goes to the end of both queues
    rw [Worklist.push_of_not_met fun hmet => (h.indexed r).mpr hmet hr]
    refine ⟨h.coherent.addNodeReal r false, by simpa using h.phase, by simpa using h.dumped, ?_, hcomplete,
      fun n => ?_, hnoLate⟩
    · rw [hqueue, h.queue]; simp [hr, h.phase]
    · rw [hindexed, h.indexed]
      simp only [Worklist.Met, List.mem_append, List.mem_singleton, or_assoc]
  · -- a known node: nothing is queued on either side
    rw [Worklist.push_of_met ((h.indexed r).mp hr)]
    refine ⟨h.coherent.addNodeReal r false, by simpa using h.phase, by simpa using h.dumped, ?_, hcomplete,
      fun n => ?_, hnoLate⟩
    · rw [hqueue, h.queue]; simp [hr]
    · rw [hindexed, ← h.indexed]
      exact ⟨fun hn => hn.elim id fun he => he ▸ hr, Or.inl⟩

theorem IncompleteSim.register {s₁ s : DumpInfo Node} {w : Worklist Node} (h : IncompleteSim s₁ s w)
    (regs : List Node) :
    IncompleteSim s₁ (s.register (regs.map (·, false)))
      (w.pushAll (fun n => s₁.complete n = true) regs) := by
  induction regs generalizing s w with
  | nil => exact h
  | cons r regs ih => exact ih (h.addNodeReal r)

theorem IncompleteSim.exec {s₁ s : DumpInfo Node} {w : Worklist Node} (h : IncompleteSim s₁ s w)
    {a : Action Node} (ha : NotLate tu a) :
    IncompleteSim s₁ (s.exec tu a) (w.pushAll (fun n => s₁.complete n = true) (registers tu a)) := by
  cases a with
  | emit frag => exact ⟨h.coherent.write frag, h.phase, h.dumped, h.queue, h.complete, h.indexed, h.noLate⟩
  | queueFile name =>
      obtain ⟨fi, fq, fn, heq⟩ := queueFile_eq s name
      have hc := h.coherent.queueFile name
      show IncompleteSim s₁ (s.queueFile name) w
      rw [heq] at hc ⊢
      exact ⟨hc, h.phase, h.dumped, h.queue, h.complete, h.indexed, h.noLate⟩
  | addNode m c =>
      show IncompleteSim s₁ (s.register (xmlAddNode tu m c).log) _
      rw [xmlAddNode_log]
      cases c with
      | false => exact h.register _
      | true =>
          have hnil : registered tu m true = [] := ha m rfl
          have hregs : registers tu (.addNode m true) = [] := hnil
          rw [hregs, hnil]
          exact h

theorem IncompleteSim.execAll {s₁ s : DumpInfo Node} {w : Worklist Node} (h : IncompleteSim s₁ s w)
    {log : List (Action Node)} (hlog : ∀ a ∈ log, NotLate tu a) :
    IncompleteSim s₁ (s.execAll tu log)
      (w.pushAll (fun n => s₁.complete n = true) (log.flatMap (registers tu))) := by
  induction log generalizing s w with
  | nil => exact h
  | cons a log ih =>
      rw [List.flatMap_cons, Worklist.pushAll_append]
      exact ih (h.exec (hlog a List.mem_cons_self)) fun b hb => hlog b (List.mem_cons_of_mem _ hb)

/-- A round of `xml_dump` that makes no late request is a step of the exploration. -/
theorem IncompleteSim.round {s₁ s : DumpInfo Node} {w : Worklist Node} (h : IncompleteSim s₁ s w) {n : Node}
    {rest : List Node} (hq : s.queue = n :: rest) (hn : s₁.complete n = false)
    (hlate : ¬ MakesLateRequest tu n) :
    IncompleteSim s₁ (xmlDumpNode tu { s with queue := rest } n)
      (w.step (fun n => s₁.complete n = true) (incompleteSuccs tu)) := by
  have hwq : w.queue = n :: rest := h.queue ▸ hq
  have hcn : s.complete n = false := (h.complete n).trans hn
  have hstep : w.step (fun n => s₁.complete n = true) (incompleteSuccs tu) =
      Worklist.pushAll (fun n => s₁.complete n = true) ⟨w.done ++ [n], rest⟩ (incompleteSuccs tu n) := by
    unfold Worklist.step; rw [hwq]
  have hpop : IncompleteSim s₁ { s with queue := rest, dumped := s.dumped ++ [(n, false)] }
      ⟨w.done ++ [n], rest⟩ := by
    refine ⟨h.coherent.pop hq false, h.phase, by simp [h.dumped], rfl, h.complete, fun m => ?_, h.noLate⟩
    refine (h.indexed m).trans ?_
    rw [Worklist.Met, Worklist.Met, hwq]
    simp only [List.mem_cons, List.mem_append, List.not_mem_nil, or_false, or_assoc]
  have hlog : ∀ a ∈ (xmlDumpTreeNode tu n false).log, NotLate tu a := by
    rintro a ha m rfl
    exact registered_of_not_late hlate (mem_issues.mpr ha)
  rw [hstep]
  unfold xmlDumpNode
  have hcomp : DumpInfo.complete { s with queue := rest } n = false := hcn
  rw [hcomp]
  exact hpop.execAll hlog

/-! ## What the complete phase leaves behind -/

/-- Every call of `xml_add_node_real` in the complete phase is made while `require_complete` is 1. -/
theorem requireComplete_registrations {fuel : Nat} {s : DumpInfo Node}
    (hrun : xmlDump tu fuel (startDump tu starts) = some s) :
    ∀ r ∈ s.registrations, r.requireComplete = true := by
  let P : DumpInfo Node → Prop := fun s =>
    s.requireComplete = true ∧ ∀ r ∈ s.registrations, r.requireComplete = true
  have hexec : ∀ (s : DumpInfo Node) (log : List (Action Node)), P s → P (s.execAll tu log) := by
    intro s log hs
    refine @execAll_induct _ _ tu P log (fun s _ c _ r _ hs => ⟨by simpa using hs.1, fun reg hreg => ?_⟩)
      (fun _ _ hs => hs) (fun s name _ hs => ?_) s hs
    · rw [registrations_addNodeReal] at hreg
      rcases List.mem_append.mp hreg with hreg | hreg
      · exact hs.2 reg hreg
      · rw [List.mem_singleton.mp hreg]; exact hs.1
    · obtain ⟨fi, fq, fn, heq⟩ := queueFile_eq s name
      rw [heq]; exact hs
  have hstart : P (startDump tu starts) := hexec _ _ ⟨rfl, fun r hr => by simp at hr⟩
  exact (@xmlDump_induct _ _ tu P (fun s _ _ hs _ => hexec _ _ hs) fuel _ s hstart hrun).1.2

/-- Where the exploration of the incomplete phase starts. -/
theorem IncompleteSim.start {s₁ : DumpInfo Node} (hrun : Running tu starts s₁) (hq : s₁.queue = [])
    (hregs : ∀ r ∈ s₁.registrations, r.requireComplete = true) :
    IncompleteSim s₁ (startIncomplete tu s₁) ⟨[], (startIncomplete tu s₁).queue⟩ := by
  refine ⟨startIncomplete_coherent hrun.coherent hq, rfl, by simp [startIncomplete, queueIncompleteDumpNodes],
    rfl, fun _ => rfl, fun n => ?_, fun r hr hrc => ?_⟩
  · show s₁.index n ≠ 0 ↔ _
    simp only [Worklist.Met, mem_queue_startIncomplete hrun.coherent hq, List.not_mem_nil, false_or]
    refine ⟨fun hn => ?_, fun hn => hn.elim hrun.coherent.index_of_complete And.left⟩
    cases hcn : s₁.complete n with
    | true => exact Or.inl rfl
    | false => exact Or.inr ⟨hn, rfl⟩
  · have : r.requireComplete = true := hregs r hr
    rw [hrc] at this; simp at this

/-! ## Exactly once -/

/-- **Exactly once**: every node with an index is printed once, its index stays and is its own, no complete request
    is made in the incomplete phase, and every node is printed with the completeness it has at the end of the first
    phase, whose state is `s₁`. -/
structure ExactlyOnce (s₁ s : DumpInfo Node) : Prop where
  printed : ∀ n, s.index n ≠ 0 → (s.dumped.map (·.1)).count n = 1
  returned : ∀ r ∈ s.registrations, r.index ≠ 0 ∧ s.index r.node = r.index
  unshared : ∀ n m, s.index n ≠ 0 → s.index n = s.index m → n = m
  noLate : ∀ r ∈ s.registrations, r.requireComplete = false → r.complete = false
  completeness : ∀ d ∈ s.dumped, d.2 = s₁.complete d.1

theorem exactlyOnce_of_noLateRequest {s₁ s₂ : DumpInfo Node} (h : PhasesEnd tu starts s₁ s₂)
    (hlate : NoLateRequest tu starts) : ExactlyOnce s₁ s₂ := by
  obtain ⟨hrun₁, hq₁⟩ := Running.start.xmlDump h.first
  have hcomplete : ∀ n, s₁.complete n = true ↔ CompleteSet tu starts n := complete_iff_completeSet h.first
  obtain ⟨hnd₁, hdumped₁⟩ := dumped_completePhase h.first
  have hbase : ∀ n ∈ (startIncomplete tu s₁).queue, ¬ s₁.complete n = true := fun n hn =>
    by simp [((mem_queue_startIncomplete hrun₁.coherent hq₁).mp hn).2]
  -- the second phase runs beside a worklist, with the complete nodes as those already met
  obtain ⟨⟨hrun, w, hsim, hinv⟩, hq⟩ := @xmlDump_induct _ _ tu
    (fun s => Running tu starts s ∧ ∃ w, IncompleteSim s₁ s w ∧
      Worklist.Inv (fun n => s₁.complete n = true) (incompleteSuccs tu) (startIncomplete tu s₁).queue w)
    (fun s n rest ⟨hrun, w, hsim, hinv⟩ hq => by
      have hn : n ∈ w.queue := by rw [← hsim.queue, hq]; exact List.mem_cons_self
      have hcn : s₁.complete n = false := by simpa using (hinv.sound n (Or.inr hn)).not_base
      have hreached := hrun.onlyReached.indexed n (hrun.coherent.queued n (by rw [hq]; exact List.mem_cons_self))
      rw [hsim.complete, hcn] at hreached
      have hnot : ¬ CompleteSet tu starts n := fun hset => by simp [(hcomplete n).mpr hset] at hcn
      exact ⟨hrun.round hq, _, hsim.round hq hcn (hlate n hreached hnot), hinv.step⟩)
    _ _ _ ⟨hrun₁.startIncomplete hq₁, _, .start hrun₁ hq₁ (requireComplete_registrations h.first),
      .start_queue (queue_startIncomplete_nodup hq₁) hbase⟩ h.second
  have hwq : w.queue = [] := hsim.queue ▸ hq
  have hdone : ∀ n ∈ w.done, s₁.complete n = false := fun n hn => by
    simpa using (hinv.sound n (Or.inl hn)).not_base
  have hfirst : ∀ d ∈ s₁.dumped, s₁.complete d.1 = true ∧ d.2 = true := fun d hd => by
    obtain ⟨hset, hc⟩ := (hdumped₁ d.1 d.2).mp hd
    exact ⟨(hcomplete d.1).mpr hset, hc⟩
  -- both phases together print the complete nodes and then what the worklist has done
  have hprinted : s₂.dumped.map (·.1) = s₁.dumped.map (·.1) ++ w.done := by
    rw [hsim.dumped, List.map_append, List.map_map]
    simp [Function.comp_def]
  refine ⟨fun n hn => ?_, hrun.coherent.returned, hrun.coherent.index_inj, hsim.noLate, fun d hd => ?_⟩
  · refine List.count_eq_one_of_mem ?_ ?_
    · rw [hprinted, List.nodup_append]
      refine ⟨hnd₁.map_on fun a ha b hb hab => ?_, hinv.nodup_done, ?_⟩
      · exact Prod.ext hab ((hfirst a ha).2.trans (hfirst b hb).2.symm)
      · rintro a ha b hb rfl
        obtain ⟨d, hd, rfl⟩ := List.mem_map.mp ha
        have := (hfirst d hd).1
        rw [hdone _ hb] at this
        simp at this
    · rw [hprinted, List.mem_append]
      rcases (hsim.indexed n).mp hn with hcn | hdn | hqn
      · exact Or.inl (List.mem_map.mpr ⟨(n, true), (hdumped₁ n true).mpr ⟨(hcomplete n).mp hcn, rfl⟩, rfl⟩)
      · exact Or.inr hdn
      · rw [hwq] at hqn; simp at hqn
  · rw [hsim.dumped] at hd
    rcases List.mem_append.mp hd with hd | hd
    · rw [(hfirst d hd).1, (hfirst d hd).2]
    · obtain ⟨n, hn, rfl⟩ := List.mem_map.mp hd
      exact (hdone n hn).symm

/-! ## A late request is recorded -/

/-- The call of `xml_add_node_real (xdi, r, c)` is on record, in the incomplete phase. -/
def Recorded (s : DumpInfo Node) (r : Node) (c : Bool) : Prop :=
  ∃ reg ∈ s.registrations, reg.node = r ∧ reg.complete = c ∧ reg.requireComplete = false

theorem Recorded.addNodeReal {s : DumpInfo Node} {r : Node} {c : Bool} (h : Recorded s r c) (n : Node)
    (d : Bool) : Recorded (s.addNodeReal n d) r c := by
  obtain ⟨reg, hreg, he⟩ := h
  refine ⟨reg, ?_, he⟩
  rw [registrations_addNodeReal]
  exact List.mem_append_left _ hreg

theorem Recorded.execAll {s : DumpInfo Node} {r : Node} {c : Bool} (h : Recorded s r c)
    (log : List (Action Node)) : Recorded (s.execAll tu log) r c :=
  @execAll_induct _ _ tu (fun s => Recorded s r c) log (fun _ _ d _ n _ hs => hs.addNodeReal n d) (fun _ _ hs => hs)
    (fun s name _ hs => by obtain ⟨_, _, _, heq⟩ := queueFile_eq s name; rw [heq]; exact hs) s h

theorem recorded_register {s : DumpInfo Node} (hphase : s.requireComplete = false) {log : List (Node × Bool)}
    {r : Node} {c : Bool} (hr : (r, c) ∈ log) : Recorded (s.register log) r c := by
  have hlater : ∀ (log : List (Node × Bool)) (s : DumpInfo Node), Recorded s r c →
      Recorded (s.register log) r c := by
    intro log
    induction log with
    | nil => exact fun _ h => h
    | cons x log ih => exact fun s h => ih _ (h.addNodeReal x.1 x.2)
  induction log generalizing s with
  | nil => simp at hr
  | cons x log ih =>
      rcases List.mem_cons.mp hr with rfl | hr
      · refine hlater log _ ⟨⟨r, c, s.requireComplete, (s.addNodeReal r c).index r⟩, ?_, rfl, rfl, hphase⟩
        rw [registrations_addNodeReal]
        exact List.mem_append_right _ (List.mem_singleton.mpr rfl)
      · exact ih (by simpa using hphase) hr

/-- What printing a node in the incomplete phase requests is on record. -/
theorem recorded_execAll {s : DumpInfo Node} (hphase : s.requireComplete = false) {log : List (Action Node)}
    {m r : Node} {c : Bool} (hm : .addNode m c ∈ log) (hr : r ∈ registered tu m c) :
    Recorded (s.execAll tu log) r c := by
  induction log generalizing s with
  | nil => simp at hm
  | cons a log ih =>
      rw [execAll_cons]
      rcases List.mem_cons.mp hm with rfl | hm
      · have hnow : Recorded (s.exec tu (.addNode m c)) r c :=
          recorded_register hphase ((mem_registered tu).mp hr)
        exact hnow.execAll log
      · have hphase' : (s.exec tu a).requireComplete = false :=
          (requireComplete_execAll s [a]).trans hphase
        exact ih hphase' hm

/-- Everything printed in the incomplete phase has its requests on record. -/
theorem PhasesEnd.recorded {s₁ s₂ : DumpInfo Node} (h : PhasesEnd tu starts s₁ s₂) {d : Node × Bool}
    (hd : d ∈ s₂.dumped) (hd₁ : d ∉ s₁.dumped) {m r : Node} {c : Bool} (hm : (m, c) ∈ issues tu d.1 d.2)
    (hr : r ∈ registered tu m c) : Recorded s₂ r c := by
  let P : DumpInfo Node → Prop := fun s => s.requireComplete = false ∧
    ∀ d ∈ s.dumped, d ∈ s₁.dumped ∨ ∀ m c, (m, c) ∈ issues tu d.1 d.2 → ∀ r ∈ registered tu m c, Recorded s r c
  have hround : ∀ s n rest, P s → s.queue = n :: rest → P (xmlDumpNode tu { s with queue := rest } n) := by
    rintro s n rest ⟨hphase, hs⟩ -
    refine ⟨(requireComplete_execAll _ _).trans hphase, fun d hd => ?_⟩
    rw [dumped_xmlDumpNode] at hd
    rcases List.mem_append.mp hd with hd | hd
    · refine (hs d hd).imp id fun hreq m c hm r hr => ?_
      have hrec : Recorded { s with queue := rest, dumped := s.dumped ++ [(n, s.complete n)] } r c :=
        hreq m c hm r hr
      exact hrec.execAll _
    · rw [List.mem_singleton.mp hd]
      refine Or.inr fun m c hm r hr => ?_
      exact @recorded_execAll _ _ _ { s with queue := rest, dumped := s.dumped ++ [(n, s.complete n)] }
        hphase _ _ _ _ (mem_issues.mp hm) hr
  have hstart : P (startIncomplete tu s₁) := ⟨rfl, fun d hd => Or.inl hd⟩
  obtain ⟨⟨-, hs⟩, -⟩ := xmlDump_induct hround hstart h.second
  exact (hs d hd).resolve_left hd₁ m c hm r hr

/-- When each node is printed once, no late request is made. -/
theorem noLateRequest_of_exactlyOnce {s₁ s₂ : DumpInfo Node} (h : PhasesEnd tu starts s₁ s₂)
    (honce : ExactlyOnce s₁ s₂) : NoLateRequest tu starts := by
  intro n hreached hnot hlate
  have hprinted := h.printed (h.reached hreached).1
  have hcn : s₁.complete n = false := by
    rw [← Bool.not_eq_true, complete_iff_completeSet h.first]; exact hnot
  -- the node is printed with the completeness it has after the first phase, and not in the first phase
  have hcomp : s₂.complete n = false := (honce.completeness _ hprinted).trans hcn
  rw [hcomp] at hprinted
  have hnot₁ : (n, false) ∉ s₁.dumped := fun hd => by simpa using (((dumped_completePhase h.first).2 n false).mp hd).2
  obtain ⟨m, hm, r, hr⟩ := exists_late hlate
  obtain ⟨reg, hreg, -, hc, hphase⟩ := h.recorded hprinted hnot₁ hm hr
  rw [honce.noLate reg hreg hphase] at hc
  simp at hc

/-- **When printing is exactly once.** Every run ends, and it prints each node exactly once if and only if no node
    that is printed as incomplete makes a late request: no virtual function outside the complete set overrides a
    method that `xml_add_node` registers. -/
theorem exactlyOnce_iff_noLateRequest (tu : TranslationUnit Node) (starts : List Node) :
    ∃ s₁ s, (∀ fuel, 2 * tu.nodes.length ≤ fuel →
        completePhase tu starts fuel = some s₁ ∧ doXmlOutput tu starts fuel = some s) ∧
      (ExactlyOnce s₁ s ↔ NoLateRequest tu starts) := by
  obtain ⟨s₁, s₂, h, -⟩ := exists_phasesEnd tu starts
  refine ⟨s₁, finishDump s₂, fun fuel hf => h.doXmlOutput hf, ?_⟩
  -- the end of the document changes nothing but the text
  have hfinish : ExactlyOnce s₁ (finishDump s₂) ↔ ExactlyOnce s₁ s₂ :=
    ⟨fun ho => ⟨ho.printed, ho.returned, ho.unshared, ho.noLate, ho.completeness⟩,
      fun ho => ⟨ho.printed, ho.returned, ho.unshared, ho.noLate, ho.completeness⟩⟩
  rw [hfinish]
  exact ⟨noLateRequest_of_exactlyOnce h, exactlyOnce_of_noLateRequest h⟩

end

/-! ### A method of a local class's context

The class `f` is befriended by the class `L`, which is local to `C::m` and has `friend class ::f;`; `C::m` overrides
`B::m` and both return `X`. -/

/-- The nodes of the example, in the order of their addresses. -/
def befriendedByLocalClass : TranslationUnit (Fin 17) where
  globalNamespace := 0
  tree
    | 0 => { code := .namespaceDecl, declName := some "::" }
    | 1 => { code := .typeDecl, declName := some "f", declContext := some 0, treeType := some 10
             declImplicitTypedefP := true, declArtificial := true }
    | 2 => { code := .recordType, typeName := some 3 }
    | 3 => { code := .typeDecl, declName := some "L", declContext := some 4, treeType := some 2
             declImplicitTypedefP := true, declArtificial := true }
    | 4 => { code := .functionDecl, declName := some "m", declContext := some 6, treeType := some 11
             declFunctionMemberP := true, declNonstaticMemberFunctionP := true, declVirtualP := true }
    | 5 => { code := .recordType, typeName := some 12 }
    | 6 => { code := .recordType, typeName := some 7, typePolymorphicP := true
             typeBinfo := some [{ type := 8 }] }
    | 7 => { code := .typeDecl, declName := some "C", declContext := some 0, treeType := some 6
             declImplicitTypedefP := true, declArtificial := true }
    | 8 => { code := .recordType, typeName := some 9, typePolymorphicP := true, typeBinfo := some [] }
    | 9 => { code := .typeDecl, declName := some "B", declContext := some 0, treeType := some 8
             declImplicitTypedefP := true, declArtificial := true }
    | 10 => { code := .recordType, typeName := some 1, completeTypeP := false, classtypeDeclaredClass := true
              befriendingClasses := [2] }
    | 11 => { code := .methodType, treeType := some 5, typeMethodBasetype := some 6, typeArgTypes := [{ value := 15 }] }
    | 12 => { code := .typeDecl, declName := some "X", declContext := some 0, treeType := some 5
              declImplicitTypedefP := true, declArtificial := true }
    | 13 => { code := .functionDecl, declName := some "m", declContext := some 8, treeType := some 14
              declFunctionMemberP := true, declNonstaticMemberFunctionP := true, declVirtualP := true }
    | 14 => { code := .methodType, treeType := some 5, typeMethodBasetype := some 8, typeArgTypes := [{ value := 16 }] }
    | 15 => { code := .pointerType, treeType := some 6 }
    | _ => { code := .pointerType, treeType := some 8 }
  lookForOverridesHere type fndecl := if type = 8 ∧ fndecl = 4 then some 13 else none
  nodes := List.finRange 17
  mem_nodes := List.mem_finRange
  address := Fin.val
  nodes_sorted := by decide
  rank
    | 7 => 2
    | 1 | 3 | 6 | 9 | 12 => 1
    | _ => 0
  rank_lt := by decide

/-- In the dump of `befriendedByLocalClass` from `f`, `X` is printed twice. -/
theorem not_exactlyOnce_befriendedByLocalClass :
    ∃ s₁ s, completePhase befriendedByLocalClass [1] 40 = some s₁ ∧
      doXmlOutput befriendedByLocalClass [1] 40 = some s ∧ ¬ ExactlyOnce s₁ s ∧
      (s.dumped.map (·.1)).count 5 = 2 := by
  refine ⟨_, _, rfl, rfl, fun h => ?_, by decide⟩
  have honce := h.printed 5 (by decide)
  exact absurd honce (by decide)

end GccXml
