import GccXml.Lib.Worklist
import GccXml.Xml.Requests
import GccXml.Xml.Run

namespace GccXml

/-! # `Xml.CompletePhase` — the complete phase computes a least set

The first `xml_dump` is an exploration: its queue holds the nodes that have become complete and are not printed yet,
and printing a node makes complete what its complete requests register. So the set of complete nodes at its end is
computed by closing the start requests under what requests register, whatever the order in which this is done.

The proof is a simulation. `CompleteSim` says that the state of the dump is one of a `Worklist`: the nodes printed are
those done, the queue is the queue, and a node is complete exactly when the worklist has met it. A call of
`xml_add_node_real` for a complete node is then a push, one for an incomplete node changes nothing that the worklist
knows, and a round of `xml_dump` is a visit. What the worklist ends with is the least closed set (`Lib.Worklist`), and
`CompleteSet` is that set for the start requests; it only depends on which requests there are (`CompleteSet.congr`).

`CompletesLeast` puts together what an end of the phase is known for: the complete nodes are the least set with
`ClosedUnderRequests`, each of them was printed once, as complete, nothing else was printed, and everything that was
requested has an index. The last part is an invariant of its own, `Requested`, which holds all through a run. -/

open DumpInfo

section
variable {Node : Type} [DecidableEq Node] {tu : TranslationUnit Node}

/-! ## Requests -/

variable (tu) in
/-- `T` contains what the start requests register and what is registered by a complete request that printing a
    member of `T` as complete issues. -/
structure ClosedUnderRequests (starts : List Node) (T : Node → Prop) : Prop where
  start : ∀ m ∈ starts, ∀ r ∈ registered tu m true, T r
  issued : ∀ n, T n → ∀ m, (m, true) ∈ issues tu n true → ∀ r ∈ registered tu m true, T r

/-- What an effect makes complete. -/
def completes (tu : TranslationUnit Node) : Action Node → List Node
  | .addNode m true => registered tu m true
  | _ => []

variable (tu) in
/-- What printing `n` as complete makes complete. -/
def completeSuccs (n : Node) : List Node := (xmlDumpTreeNode tu n true).log.flatMap (completes tu)

variable (tu) in
/-- What the start requests make complete. -/
def completeStarts (starts : List Node) : List Node := starts.flatMap fun m => registered tu m true

theorem mem_completeSuccs {n r : Node} :
    r ∈ completeSuccs tu n ↔ ∃ m, (m, true) ∈ issues tu n true ∧ r ∈ registered tu m true := by
  simp only [completeSuccs, List.mem_flatMap, mem_issues]
  constructor
  · rintro ⟨a, ha, hr⟩
    cases a with
    | addNode m c =>
        cases c with
        | false => simp [completes] at hr
        | true => exact ⟨m, ha, hr⟩
    | emit frag => simp [completes] at hr
    | queueFile name => simp [completes] at hr
  · rintro ⟨m, hm, hr⟩
    exact ⟨_, hm, hr⟩

variable (tu) in
/-- **The complete set**: what the exploration from the start requests reaches. -/
def CompleteSet (starts : List Node) : Node → Prop :=
  Worklist.Reach (fun _ => False) (completeSuccs tu) (completeStarts tu starts)

theorem CompleteSet.closed (starts : List Node) : ClosedUnderRequests tu starts (CompleteSet tu starts) where
  start m hm _ hr := .init (List.mem_flatMap.mpr ⟨m, hm, hr⟩) id
  issued _ hn m hm _ hr := .succ hn (mem_completeSuccs.mpr ⟨m, hm, hr⟩) id

/-- The complete set is the least closed one. -/
theorem CompleteSet.least {starts : List Node} {T : Node → Prop} (hT : ClosedUnderRequests tu starts T)
    {n : Node} (h : CompleteSet tu starts n) : T n := by
  refine Worklist.Reach.least (fun x hx _ => ?_) (fun x hx y hy _ => ?_) h
  · obtain ⟨m, hm, hr⟩ := List.mem_flatMap.mp hx
    exact hT.start m hm x hr
  · obtain ⟨m, hm, hr⟩ := mem_completeSuccs.mp hy
    exact hT.issued x hx m hm y hr

/-! ## The phase is an exploration -/

/-- The state of the complete phase when the exploration is at `w`. -/
structure CompleteSim (s : DumpInfo Node) (w : Worklist Node) : Prop where
  coherent : s.Coherent
  phase : s.requireComplete = true
  dumped : s.dumped = w.done.map (·, true)
  queue : s.queue = w.queue
  complete : ∀ n, s.complete n = true ↔ n ∈ w.done ∨ n ∈ w.queue

omit [DecidableEq Node] in
theorem CompleteSim.met_iff {s : DumpInfo Node} {w : Worklist Node} (h : CompleteSim s w) (n : Node) :
    w.Met (fun _ => False) n ↔ s.complete n = true := by
  rw [h.complete]; simp [Worklist.Met]

/-- A complete registration is a push. -/
theorem CompleteSim.addNodeReal_true {s : DumpInfo Node} {w : Worklist Node} (h : CompleteSim s w) (r : Node) :
    CompleteSim (s.addNodeReal r true) (w.push (fun _ => False) r) := by
  have hqueue := queue_addNodeReal h.coherent r true
  by_cases hr : s.complete r = true
  · rw [Worklist.push_of_met ((h.met_iff r).mpr hr)]
    refine ⟨h.coherent.addNodeReal r true, by simpa using h.phase, by simpa using h.dumped, ?_, fun n => ?_⟩
    · simpa [hqueue, hr, h.phase] using h.queue
    · rw [complete_addNodeReal h.coherent, ← h.complete]
      by_cases hn : n = r
      · subst hn; simp [hr]
      · simp [hn]
  · rw [Worklist.push_of_not_met (fun hm => hr ((h.met_iff r).mp hm))]
    have hr' : s.complete r = false := by simpa using hr
    refine ⟨h.coherent.addNodeReal r true, by simpa using h.phase, by simpa using h.dumped, ?_, fun n => ?_⟩
    · simp [hqueue, hr', h.queue]
    · rw [complete_addNodeReal h.coherent]
      simp only [Bool.and_true, Bool.or_eq_true, h.complete, decide_eq_true_eq, List.mem_append,
        List.mem_singleton, or_assoc]

/-- An incomplete registration changes nothing that the exploration sees. -/
theorem CompleteSim.addNodeReal_false {s : DumpInfo Node} {w : Worklist Node} (h : CompleteSim s w) (r : Node) :
    CompleteSim (s.addNodeReal r false) w := by
  refine ⟨h.coherent.addNodeReal r false, by simpa using h.phase, by simpa using h.dumped, ?_, fun n => ?_⟩
  · rw [queue_addNodeReal h.coherent]; simpa [h.phase] using h.queue
  · rw [complete_addNodeReal h.coherent]; simpa using h.complete n

theorem CompleteSim.register {s : DumpInfo Node} {w : Worklist Node} (h : CompleteSim s w) (regs : List Node)
    (c : Bool) :
    CompleteSim (s.register (regs.map (·, c))) (w.pushAll (fun _ => False) (if c then regs else [])) := by
  induction regs generalizing s w with
  | nil => cases c <;> exact h
  | cons r regs ih =>
      cases c with
      | false => exact ih (h.addNodeReal_false r)
      | true => exact ih (h.addNodeReal_true r)

theorem CompleteSim.exec {s : DumpInfo Node} {w : Worklist Node} (h : CompleteSim s w) (a : Action Node) :
    CompleteSim (s.exec tu a) (w.pushAll (fun _ => False) (completes tu a)) := by
  cases a with
  | emit frag => exact ⟨h.coherent.write frag, h.phase, h.dumped, h.queue, h.complete⟩
  | queueFile name =>
      obtain ⟨fi, fq, fn, heq⟩ := queueFile_eq s name
      have hc := h.coherent.queueFile name
      show CompleteSim (s.queueFile name) w
      rw [heq] at hc ⊢
      exact ⟨hc, h.phase, h.dumped, h.queue, h.complete⟩
  | addNode m c =>
      show CompleteSim (s.register (xmlAddNode tu m c).log) _
      rw [xmlAddNode_log]
      cases c with
      | false => exact h.register _ false
      | true => exact h.register _ true

theorem CompleteSim.execAll {s : DumpInfo Node} {w : Worklist Node} (h : CompleteSim s w)
    (log : List (Action Node)) :
    CompleteSim (s.execAll tu log) (w.pushAll (fun _ => False) (log.flatMap (completes tu))) := by
  induction log generalizing s w with
  | nil => exact h
  | cons a log ih =>
      rw [List.flatMap_cons, Worklist.pushAll_append]
      exact ih (h.exec a)

/-- Printing the first queue entry takes its node from the queue and pushes what the effects complete. -/
theorem CompleteSim.visit {s : DumpInfo Node} {w : Worklist Node} (h : CompleteSim s w) {n : Node}
    {rest : List Node} (hq : s.queue = n :: rest) (log : List (Action Node)) :
    CompleteSim ({ s with queue := rest, dumped := s.dumped ++ [(n, s.complete n)] }.execAll tu log)
      (Worklist.pushAll (fun _ => False) ⟨w.done ++ [n], rest⟩ (log.flatMap (completes tu))) := by
  have hwq : w.queue = n :: rest := h.queue ▸ hq
  have hn : s.complete n = true := (h.complete n).mpr (Or.inr (by rw [hwq]; exact List.mem_cons_self))
  have hpop : CompleteSim ({ s with queue := rest, dumped := s.dumped ++ [(n, s.complete n)] } : DumpInfo Node)
      ⟨w.done ++ [n], rest⟩ := by
    refine ⟨h.coherent.pop hq _, h.phase, by simp [h.dumped, hn], rfl, fun m => ?_⟩
    refine (h.complete m).trans ?_
    rw [hwq]
    simp only [List.mem_cons, List.mem_append, List.not_mem_nil, or_false, or_assoc]
  exact hpop.execAll log

/-- A round of `xml_dump` is a step of the exploration. -/
theorem CompleteSim.round {s : DumpInfo Node} {w : Worklist Node} (h : CompleteSim s w) {n : Node}
    {rest : List Node} (hq : s.queue = n :: rest) :
    CompleteSim (xmlDumpNode tu { s with queue := rest } n) (w.step (fun _ => False) (completeSuccs tu)) := by
  have hwq : w.queue = n :: rest := h.queue ▸ hq
  have hn : s.complete n = true := (h.complete n).mpr (Or.inr (by rw [hwq]; exact List.mem_cons_self))
  have hstep : w.step (fun _ => False) (completeSuccs tu) =
      Worklist.pushAll (fun _ => False) ⟨w.done ++ [n], rest⟩ (completeSuccs tu n) := by
    unfold Worklist.step; rw [hwq]
  have hlog : completeSuccs tu n = (xmlDumpTreeNode tu n (s.complete n)).log.flatMap (completes tu) := by rw [hn]; rfl
  rw [hstep, hlog]
  exact h.visit hq _

/-- The start requests begin the exploration. -/
theorem CompleteSim.start (starts : List Node) :
    CompleteSim (startDump tu starts) (Worklist.pushAll (fun _ => False) {} (completeStarts tu starts)) := by
  have hinit : CompleteSim ({} : DumpInfo Node) {} :=
    ⟨.init, rfl, rfl, rfl, fun n => by simp [DumpInfo.complete, dumpNode]⟩
  have hhead : ((documentHead tu).map Action.emit).flatMap (completes tu) = [] := by
    simp [List.flatMap_map, completes]
  have hlog : (startLog tu starts).flatMap (completes tu) = completeStarts tu starts := by
    rw [startLog, List.flatMap_append, hhead, List.append_nil, List.flatMap_map]
    rfl
  exact hlog ▸ hinit.execAll (startLog tu starts)

/-- **The complete phase at its end**: it is the end of an exploration that started from the start requests. -/
theorem completePhase_end {starts : List Node} {fuel : Nat} {s : DumpInfo Node}
    (hrun : xmlDump tu fuel (startDump tu starts) = some s) :
    ∃ w, CompleteSim s w ∧ w.queue = [] ∧
      Worklist.Inv (fun _ => False) (completeSuccs tu) (completeStarts tu starts) w := by
  have hend := @xmlDump_induct _ _ tu
    (fun s => ∃ w, CompleteSim s w ∧
      Worklist.Inv (fun _ => False) (completeSuccs tu) (completeStarts tu starts) w)
    (fun s n rest ⟨w, hsim, hinv⟩ hq => ⟨_, hsim.round hq, hinv.step⟩) fuel _ s
    ⟨_, CompleteSim.start starts, .start_pushAll _⟩ hrun
  obtain ⟨⟨w, hsim, hinv⟩, hq⟩ := hend
  exact ⟨w, hsim, hsim.queue ▸ hq, hinv⟩

/-- At the end of the complete phase exactly the complete set is complete. -/
theorem complete_iff_completeSet {starts : List Node} {fuel : Nat} {s : DumpInfo Node}
    (hrun : xmlDump tu fuel (startDump tu starts) = some s) (n : Node) :
    s.complete n = true ↔ CompleteSet tu starts n := by
  obtain ⟨w, hsim, hwq, hinv⟩ := completePhase_end hrun
  rw [hsim.complete, hwq, CompleteSet, ← hinv.mem_done_iff hwq]
  simp

/-- The nodes printed in the complete phase are the complete set, each printed once and as complete. -/
theorem dumped_completePhase {starts : List Node} {fuel : Nat} {s : DumpInfo Node}
    (hrun : xmlDump tu fuel (startDump tu starts) = some s) :
    s.dumped.Nodup ∧ ∀ n c, (n, c) ∈ s.dumped ↔ CompleteSet tu starts n ∧ c = true := by
  obtain ⟨w, hsim, hwq, hinv⟩ := completePhase_end hrun
  rw [hsim.dumped]
  refine ⟨hinv.nodup_done.map fun a b h => (Prod.mk.inj h).1, fun n c => ?_⟩
  rw [CompleteSet, ← hinv.mem_done_iff hwq]
  simp [eq_comm]

/-- What printing a node requests has an index as soon as the node was printed, and is complete if the request
    was. -/
def Requested (tu : TranslationUnit Node) (s : DumpInfo Node) : Prop :=
  ∀ n c, (n, c) ∈ s.dumped → ∀ m d, (m, d) ∈ issues tu n c → ∀ r ∈ registered tu m d,
    s.index r ≠ 0 ∧ (d = true → s.complete r = true)

theorem dumped_execAll (s : DumpInfo Node) (log : List (Action Node)) :
    (s.execAll tu log).dumped = s.dumped :=
  @execAll_induct _ _ tu (fun s' => s'.dumped = s.dumped) log (fun _ _ _ _ _ _ h => by simpa using h)
    (fun _ _ h => h)
    (fun s' name _ h => by obtain ⟨_, _, _, heq⟩ := queueFile_eq s' name; rw [heq]; exact h) s rfl

theorem dumped_xmlDumpNode (s : DumpInfo Node) (n : Node) :
    (xmlDumpNode tu s n).dumped = s.dumped ++ [(n, s.complete n)] := dumped_execAll _ _

theorem requested_visit {s : DumpInfo Node} (hc : s.Coherent) (h : Requested tu s) {n : Node} {rest : List Node}
    (hq : s.queue = n :: rest) {log : List (Action Node)}
    (hlog : ∀ m d, (m, d) ∈ issues tu n (s.complete n) → .addNode m d ∈ log) :
    Requested tu ({ s with queue := rest, dumped := s.dumped ++ [(n, s.complete n)] }.execAll tu log) := by
  have hpop := hc.pop hq (s.complete n)
  have hext : Extends _ (DumpInfo.execAll tu _ log) := .execAll hpop log
  intro k c hk m d hm r hr
  rw [dumped_execAll] at hk
  rcases List.mem_append.mp hk with hk | hk
  · obtain ⟨hi, hd⟩ := h k c hk m d hm r hr
    exact ⟨hext.index_ne_zero hi, fun hd' => hext.complete r (hd hd')⟩
  · obtain ⟨rfl, rfl⟩ := Prod.mk.inj (List.mem_singleton.mp hk)
    exact execAll_of_mem hpop (hlog m d hm) hr

theorem requested_round {s : DumpInfo Node} (hc : s.Coherent) (h : Requested tu s) {n : Node}
    {rest : List Node} (hq : s.queue = n :: rest) :
    Requested tu (xmlDumpNode tu { s with queue := rest } n) :=
  requested_visit hc h hq fun _ _ => mem_issues.mp

/-- Requests are answered in every run of the dump loop. -/
theorem requested_xmlDump {fuel : Nat} {s s' : DumpInfo Node} (hc : s.Coherent) (h : Requested tu s)
    (hrun : xmlDump tu fuel s = some s') : Requested tu s' :=
  (@xmlDump_induct _ _ tu (fun s => s.Coherent ∧ Requested tu s)
    (fun _ _ _ hs hq => ⟨hs.1.xmlDumpNode hq, requested_round hs.1 hs.2 hq⟩) fuel s s' ⟨hc, h⟩ hrun).1.2

theorem requested_startDump (starts : List Node) : Requested tu (startDump tu starts) := by
  intro n c hn
  rw [(CompleteSim.start starts).dumped, Worklist.done_pushAll] at hn
  simp at hn

/-! ## The least fixed point -/

/-- The complete set depends on the start requests and on the complete requests of each node only as sets. -/
theorem CompleteSet.congr {tu' : TranslationUnit Node} {starts starts' : List Node}
    (hstarts : ∀ m, m ∈ starts ↔ m ∈ starts')
    (hreg : ∀ m r, r ∈ registered tu m true ↔ r ∈ registered tu' m true)
    (hiss : ∀ n m, (m, true) ∈ issues tu n true ↔ (m, true) ∈ issues tu' n true) (n : Node) :
    CompleteSet tu starts n ↔ CompleteSet tu' starts' n := by
  have hclosed : ClosedUnderRequests tu starts (CompleteSet tu' starts') :=
    ⟨fun m hm r hr => (CompleteSet.closed starts').start m ((hstarts m).mp hm) r ((hreg m r).mp hr),
      fun k hk m hm r hr =>
        (CompleteSet.closed starts').issued k hk m ((hiss k m).mp hm) r ((hreg m r).mp hr)⟩
  have hclosed' : ClosedUnderRequests tu' starts' (CompleteSet tu starts) :=
    ⟨fun m hm r hr => (CompleteSet.closed starts).start m ((hstarts m).mpr hm) r ((hreg m r).mpr hr),
      fun k hk m hm r hr =>
        (CompleteSet.closed starts).issued k hk m ((hiss k m).mpr hm) r ((hreg m r).mpr hr)⟩
  exact ⟨CompleteSet.least hclosed, CompleteSet.least hclosed'⟩

variable (tu) in
/-- The state `s` at the end of the phase: its complete nodes are the least set closed under requests, each of them was
    printed once and nothing else was, and everything requested while printing has an index. -/
structure CompletesLeast (starts : List Node) (s : DumpInfo Node) : Prop where
  closed : ClosedUnderRequests tu starts fun n => s.complete n = true
  least : ∀ T, ClosedUnderRequests tu starts T → ∀ n, s.complete n = true → T n
  once : ∀ n, s.complete n = true → s.dumped.count (n, true) = 1
  only : ∀ d ∈ s.dumped, s.complete d.1 = true ∧ d.2 = true
  indexed : ∀ n, s.complete n = true → ∀ m c, (m, c) ∈ issues tu n true → ∀ r ∈ registered tu m c, s.index r ≠ 0

/-- An exploration at its end, whose requests have been answered. -/
theorem CompleteSim.completesLeast {starts : List Node} {s : DumpInfo Node} {w : Worklist Node}
    (hsim : CompleteSim s w) (hwq : w.queue = [])
    (hinv : Worklist.Inv (fun _ => False) (completeSuccs tu) (completeStarts tu starts) w) (hreq : Requested tu s) :
    CompletesLeast tu starts s := by
  have hset : ∀ n, s.complete n = true ↔ CompleteSet tu starts n := by
    intro n
    rw [hsim.complete, hwq, CompleteSet, ← hinv.mem_done_iff hwq]
    simp
  have hdumped : ∀ n c, (n, c) ∈ s.dumped ↔ s.complete n = true ∧ c = true := by
    intro n c
    rw [hsim.dumped, hsim.complete, hwq]
    simp [eq_comm]
  refine ⟨?_, ?_, ?_, ?_, ?_⟩
  · have heq : (fun n => s.complete n = true) = CompleteSet tu starts := funext fun n => propext (hset n)
    exact heq ▸ CompleteSet.closed starts
  · exact fun T hT n hn => CompleteSet.least hT ((hset n).mp hn)
  · intro n hn
    refine List.count_eq_one_of_mem ?_ ((hdumped n true).mpr ⟨hn, rfl⟩)
    rw [hsim.dumped]
    exact hinv.nodup_done.map fun a b h => (Prod.mk.inj h).1
  · exact fun d hd => (hdumped d.1 d.2).mp hd
  · exact fun n hn m c hm r hr => (hreq n true ((hdumped n true).mpr ⟨hn, rfl⟩) m c hm r hr).1

/-- **The complete phase computes a least fixed point and terminates**, for a unit that stays as it is. For every list
    of start requests the first `xml_dump` ends, its end completes the least closed set, and another order of the start
    requests or of the requests of any node leaves the same nodes complete. -/
theorem complete_phase_least_fixed_point (tu : TranslationUnit Node) (starts : List Node) :
    ∃ s, (∀ fuel, 2 * tu.nodes.length ≤ fuel → completePhase tu starts fuel = some s) ∧
      CompletesLeast tu starts s ∧
      (∀ (tu' : TranslationUnit Node) (starts' : List Node),
        (∀ m, m ∈ starts ↔ m ∈ starts') →
        (∀ m r, r ∈ registered tu m true ↔ r ∈ registered tu' m true) →
        (∀ n m, (m, true) ∈ issues tu n true ↔ (m, true) ∈ issues tu' n true) →
        ∀ fuel s', completePhase tu' starts' fuel = some s' → ∀ n, s'.complete n = s.complete n) := by
  obtain ⟨s, s₂, hrun, -⟩ := exists_phasesEnd tu starts
  have hset := complete_iff_completeSet hrun.first
  obtain ⟨w, hsim, hwq, hinv⟩ := completePhase_end hrun.first
  have hreq := requested_xmlDump (startDump_coherent starts) (requested_startDump starts) hrun.first
  refine ⟨s, fun fuel hf => (hrun.doXmlOutput hf).1, hsim.completesLeast hwq hinv hreq, ?_⟩
  intro tu' starts' hstarts hreg hiss fuel s' hrun' n
  have hset' := complete_iff_completeSet hrun' n
  exact Bool.eq_iff_iff.mpr
    (hset'.trans ((CompleteSet.congr hstarts hreg hiss n).symm.trans (hset n).symm))

end

end GccXml
