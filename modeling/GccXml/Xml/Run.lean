import GccXml.Xml.State

namespace GccXml

/-! # `Xml.Run` — whole runs of the dump loop

The induction principle for `xml_dump`, its termination, and the facts that hold of every run of `do_xml_output`:
indices stay and are given out once.

`xmlDump_induct` is the rule that every later invariant goes through: what holds at the start and is kept by a round,
from a queue that is not empty, holds at the end. `potential` bounds the rounds that are left, so that twice the number
of nodes is enough fuel for either phase, and `xmlDump_mono` says that more of it changes nothing.

The two phases are put together in `PhasesEnd`: the state at the end of the complete phase and the one at the end of
the incomplete phase. There are such states for every unit and every list of start requests (`exists_phasesEnd`), and
`do_xml_output` writes the last lines behind them. -/

open DumpInfo

section
variable {Node : Type} [DecidableEq Node] {tu : TranslationUnit Node}

/-! ## The loop -/

theorem xmlDump_of_queue_nil {s : DumpInfo Node} (h : s.queue = []) (fuel : Nat) :
    xmlDump tu fuel s = some s := by
  cases fuel <;> simp [xmlDump, h]

theorem xmlDump_of_queue_cons {s : DumpInfo Node} {n : Node} {rest : List Node} (h : s.queue = n :: rest)
    (fuel : Nat) :
    xmlDump tu (fuel + 1) s = xmlDump tu fuel (xmlDumpNode tu { s with queue := rest } n) := by
  rw [xmlDump]; split
  · rename_i hq; rw [h] at hq; cases hq
  · rename_i hq; rw [h] at hq; cases hq; rfl

theorem xmlDump_zero_of_queue_cons {s : DumpInfo Node} {n : Node} {rest : List Node}
    (h : s.queue = n :: rest) : xmlDump tu 0 s = none := by
  simp [xmlDump, h]

/-- **Induction over the rounds of `xml_dump`**: what every round keeps holds at the end, where the queue is
    empty. -/
theorem xmlDump_induct {P : DumpInfo Node → Prop}
    (hround : ∀ s n rest, P s → s.queue = n :: rest → P (xmlDumpNode tu { s with queue := rest } n))
    {fuel : Nat} {s s' : DumpInfo Node} (h : P s) (hrun : xmlDump tu fuel s = some s') :
    P s' ∧ s'.queue = [] := by
  induction fuel generalizing s with
  | zero =>
      cases hq : s.queue with
      | nil =>
          rw [xmlDump_of_queue_nil hq] at hrun
          cases hrun; exact ⟨h, hq⟩
      | cons n rest => rw [xmlDump_zero_of_queue_cons hq] at hrun; cases hrun
  | succ fuel ih =>
      cases hq : s.queue with
      | nil =>
          rw [xmlDump_of_queue_nil hq] at hrun
          cases hrun; exact ⟨h, hq⟩
      | cons n rest =>
          rw [xmlDump_of_queue_cons hq] at hrun
          exact ih (hround s n rest h hq) hrun

theorem queue_nil_of_xmlDump {fuel : Nat} {s s' : DumpInfo Node} (hrun : xmlDump tu fuel s = some s') :
    s'.queue = [] :=
  (@xmlDump_induct _ _ tu (fun _ => True) (fun _ _ _ _ _ => True.intro) fuel s s' True.intro hrun).2

/-- More fuel changes nothing. -/
theorem xmlDump_mono {fuel fuel' : Nat} {s s' : DumpInfo Node} (hrun : xmlDump tu fuel s = some s')
    (hle : fuel ≤ fuel') : xmlDump tu fuel' s = some s' := by
  induction fuel generalizing fuel' s with
  | zero =>
      cases hq : s.queue with
      | nil => rw [xmlDump_of_queue_nil hq] at hrun ⊢; exact hrun
      | cons n rest => rw [xmlDump_zero_of_queue_cons hq] at hrun; cases hrun
  | succ fuel ih =>
      obtain ⟨fuel', rfl⟩ : ∃ k, fuel' = k + 1 := ⟨fuel' - 1, by omega⟩
      cases hq : s.queue with
      | nil => rw [xmlDump_of_queue_nil hq] at hrun ⊢; exact hrun
      | cons n rest =>
          rw [xmlDump_of_queue_cons hq] at hrun ⊢
          exact ih hrun (by omega)

/-! ## Termination

A node can enter the queue at most twice: once when it gets its index in the incomplete phase or is found incomplete
between the phases, and once when it becomes complete. -/

/-- How often the node with this dump node can still be queued. -/
def DumpNode.remaining (dn : DumpNode) : Nat := if dn.index = 0 then 2 else if dn.complete then 0 else 1

variable (tu) in
/-- The bound on the rounds that are left. -/
def potential (s : DumpInfo Node) : Nat :=
  (tu.nodes.map fun n => (s.dumpNode n).remaining).sum + s.queue.length

theorem sum_map_eq_of_eq_off {α : Type} {l : List α} {f g : α → Nat} {a : α} (hnd : l.Nodup) (ha : a ∈ l)
    (h : ∀ x, x ≠ a → g x = f x) : (l.map g).sum + f a = (l.map f).sum + g a := by
  induction l with
  | nil => simp at ha
  | cons x l ih =>
      obtain ⟨hx, hnd⟩ := List.nodup_cons.mp hnd
      simp only [List.map_cons, List.sum_cons]
      rcases List.mem_cons.mp ha with rfl | ha
      · have hrest : l.map g = l.map f :=
          List.map_congr_left fun y hy => h y fun he => hx (he ▸ hy)
        rw [hrest]; omega
      · have := ih hnd ha
        rw [h x fun he => hx (he ▸ ha)]; omega

theorem potential_addNodeReal {s : DumpInfo Node} (h : s.Coherent) (n : Node) (c : Bool) :
    potential tu (s.addNodeReal n c) ≤ potential tu s := by
  have hoff : ∀ m, m ≠ n → ((s.addNodeReal n c).dumpNode m).remaining = (s.dumpNode m).remaining := by
    intro m hm
    by_cases hi : s.index n = 0
    · rw [addNodeReal_new s n c hi]; simp [dumpNode, hm]
    · rw [addNodeReal_known s n c hi]; simp [dumpNode, hm]
  have hsum := sum_map_eq_of_eq_off tu.nodes_nodup (tu.mem_nodes n) hoff
  have hidx : ((s.addNodeReal n c).dumpNode n).index ≠ 0 := index_addNodeReal_ne_zero h n c
  have hcomp : ((s.addNodeReal n c).dumpNode n).complete = (s.complete n || c) := by
    have := complete_addNodeReal h n c n
    simpa [complete] using this
  simp only [potential, queue_addNodeReal h, List.length_append]
  have hwt : ((s.addNodeReal n c).dumpNode n).remaining +
      (if (c && !s.complete n) || (s.index n = 0 && !s.requireComplete) then [n] else []).length
        ≤ (s.dumpNode n).remaining := by
    simp only [DumpNode.remaining, hidx, if_false, hcomp]
    by_cases hi : s.index n = 0
    · have hi' : (s.dumpNode n).index = 0 := hi
      rw [if_pos hi', h.complete_eq_false hi]
      cases c <;> cases s.requireComplete <;> simp [hi]
    · have hi' : (s.dumpNode n).index ≠ 0 := hi
      rw [if_neg hi']
      have hcc : (s.dumpNode n).complete = s.complete n := rfl
      rw [hcc]
      cases c <;> cases s.complete n <;> simp [hi]
  omega

theorem potential_execAll {s : DumpInfo Node} (h : s.Coherent) (log : List (Action Node)) :
    potential tu (s.execAll tu log) ≤ potential tu s := by
  have hboth : (s.execAll tu log).Coherent ∧ potential tu (s.execAll tu log) ≤ potential tu s := by
    refine @execAll_induct _ _ tu (fun s' => s'.Coherent ∧ potential tu s' ≤ potential tu s) _
      (fun s' m c _ r _ hs => ?_) (fun s' frag hs => ?_) (fun s' name _ hs => ?_) s ⟨h, Nat.le_refl _⟩
    · exact ⟨hs.1.addNodeReal r c, Nat.le_trans (potential_addNodeReal hs.1 r c) hs.2⟩
    · exact ⟨hs.1.write frag, hs.2⟩
    · obtain ⟨fi, fq, fn, heq⟩ := queueFile_eq s' name
      exact ⟨hs.1.queueFile name, by rw [heq]; exact hs.2⟩
  exact hboth.2

omit [DecidableEq Node] in
/-- The state in which a node that was just taken from the queue is printed. -/
theorem DumpInfo.Coherent.pop {s : DumpInfo Node} (h : s.Coherent) {n : Node} {rest : List Node}
    (hq : s.queue = n :: rest) (c : Bool) :
    ({ s with queue := rest, dumped := s.dumped ++ [(n, c)] } : DumpInfo Node).Coherent where
  index_lt := h.index_lt
  index_inj := h.index_inj
  stored := h.stored
  queued m hm := h.queued m (by rw [hq]; exact List.mem_cons_of_mem _ hm)
  dumped d hd := by
    rcases List.mem_append.mp hd with hd | hd
    · exact h.dumped d hd
    · rw [List.mem_singleton.mp hd]
      exact h.queued n (by rw [hq]; exact List.mem_cons_self)
  returned := h.returned

theorem DumpInfo.Coherent.xmlDumpNode {s : DumpInfo Node} (h : s.Coherent) {n : Node} {rest : List Node}
    (hq : s.queue = n :: rest) : (xmlDumpNode tu { s with queue := rest } n).Coherent :=
  (h.pop hq _).execAll _

/-- **The dump loop ends**: every round uses up one unit of `potential`. -/
theorem xmlDump_terminates {fuel : Nat} {s : DumpInfo Node} (h : s.Coherent) (hf : potential tu s ≤ fuel) :
    ∃ s', xmlDump tu fuel s = some s' ∧ s'.Coherent ∧ potential tu s' ≤ potential tu s := by
  induction fuel generalizing s with
  | zero =>
      have hq : s.queue = [] := List.length_eq_zero_iff.mp (by unfold potential at hf; omega)
      exact ⟨s, xmlDump_of_queue_nil hq 0, h, Nat.le_refl _⟩
  | succ fuel ih =>
      cases hq : s.queue with
      | nil => exact ⟨s, xmlDump_of_queue_nil hq _, h, Nat.le_refl _⟩
      | cons n rest =>
          have hpop : potential tu (xmlDumpNode tu { s with queue := rest } n) + 1 ≤ potential tu s := by
            have hle : potential tu (xmlDumpNode tu { s with queue := rest } n) ≤
                potential tu { s with queue := rest } := potential_execAll (h.pop hq (s.complete n)) _
            have hlen : potential tu s = potential tu { s with queue := rest } + 1 := by
              simp only [potential, hq, List.length_cons]; rfl
            exact hlen ▸ Nat.succ_le_succ hle
          have hnext : (xmlDumpNode tu { s with queue := rest } n).Coherent := h.xmlDumpNode hq
          obtain ⟨s', hrun, hc, hle⟩ := ih hnext (by omega)
          exact ⟨s', by rw [xmlDump_of_queue_cons hq, hrun], hc, by omega⟩

/-! ## The two phases -/

theorem startDump_coherent (starts : List Node) : (startDump tu starts).Coherent :=
  Coherent.init.execAll _

theorem potential_startDump (starts : List Node) : potential tu (startDump tu starts) ≤ 2 * tu.nodes.length := by
  refine Nat.le_trans (potential_execAll Coherent.init _) ?_
  simp [potential, dumpNode, DumpNode.remaining, Nat.mul_comm]

omit [DecidableEq Node] in
/-- Between the phases, the nodes that are queued are those that have an index and are not complete. -/
theorem mem_queue_startIncomplete {s : DumpInfo Node} (h : s.Coherent) (hq : s.queue = []) {n : Node} :
    n ∈ (startIncomplete tu s).queue ↔ s.index n ≠ 0 ∧ s.complete n = false := by
  simp only [startIncomplete, queueIncompleteDumpNodes, hq, List.nil_append, List.mem_filter, tu.mem_nodes,
    true_and]
  cases hn : s.dumpNodes n with
  | none => simp [index, dumpNode, hn]
  | some dn => simp [index, complete, dumpNode, hn, h.stored n dn hn]

omit [DecidableEq Node] in
theorem queue_startIncomplete_nodup {s : DumpInfo Node} (hq : s.queue = []) :
    (startIncomplete tu s).queue.Nodup := by
  simp only [startIncomplete, queueIncompleteDumpNodes, hq, List.nil_append]
  exact tu.nodes_nodup.filter _

omit [DecidableEq Node] in
theorem startIncomplete_coherent {s : DumpInfo Node} (h : s.Coherent) (hq : s.queue = []) :
    (startIncomplete tu s).Coherent where
  index_lt := h.index_lt
  index_inj := h.index_inj
  stored := h.stored
  queued _ hn := ((mem_queue_startIncomplete h hq).mp hn).1
  dumped := h.dumped
  returned := h.returned

omit [DecidableEq Node] in
theorem potential_startIncomplete {s : DumpInfo Node} (h : s.Coherent) (hq : s.queue = []) :
    potential tu (startIncomplete tu s) ≤ 2 * tu.nodes.length := by
  simp only [potential, startIncomplete, queueIncompleteDumpNodes, hq, List.nil_append]
  induction tu.nodes with
  | nil => simp
  | cons n ns ih =>
      have hn : (s.dumpNode n).remaining + (if (s.dumpNodes n).any fun dn => !dn.complete then 1 else 0) ≤ 2 := by
        cases hd : s.dumpNodes n with
        | none => simp [dumpNode, DumpNode.remaining, hd]
        | some dn =>
            have hi := h.stored n dn hd
            obtain ⟨i, c⟩ := dn
            simp only [dumpNode, DumpNode.remaining, hd, Option.getD_some, Option.any_some]
            cases c <;> simp [hi]
      simp only [List.map_cons, List.sum_cons, List.filter_cons, List.length_cons]
      split at hn <;> rename_i hcond <;> simp only [hcond, if_true] <;>
        simp only [dumpNode, List.length_cons, Bool.false_eq_true, if_false] at ih hn ⊢ <;> omega

/-- A run of `do_xml_output`: `s₁` is the state after the first `xml_dump` and `s₂` the state after the second. -/
structure PhasesEnd (tu : TranslationUnit Node) (starts : List Node) (s₁ s₂ : DumpInfo Node) : Prop where
  first : xmlDump tu (2 * tu.nodes.length) (startDump tu starts) = some s₁
  second : xmlDump tu (2 * tu.nodes.length) (startIncomplete tu s₁) = some s₂

/-- **Every run ends.** -/
theorem exists_phasesEnd (tu : TranslationUnit Node) (starts : List Node) :
    ∃ s₁ s₂, PhasesEnd tu starts s₁ s₂ ∧ s₁.Coherent ∧ s₁.queue = [] ∧ s₂.Coherent ∧ s₂.queue = [] := by
  obtain ⟨s₁, h₁, hc₁, _⟩ := xmlDump_terminates (startDump_coherent starts) (potential_startDump starts)
  have hq₁ := queue_nil_of_xmlDump h₁
  obtain ⟨s₂, h₂, hc₂, _⟩ :=
    xmlDump_terminates (startIncomplete_coherent hc₁ hq₁) (potential_startIncomplete hc₁ hq₁)
  exact ⟨s₁, s₂, ⟨h₁, h₂⟩, hc₁, hq₁, hc₂, queue_nil_of_xmlDump h₂⟩

theorem PhasesEnd.doXmlOutput {starts : List Node} {s₁ s₂ : DumpInfo Node} (h : PhasesEnd tu starts s₁ s₂)
    {fuel : Nat} (hf : 2 * tu.nodes.length ≤ fuel) :
    completePhase tu starts fuel = some s₁ ∧ doXmlOutput tu starts fuel = some (finishDump s₂) := by
  have h₁ : completePhase tu starts fuel = some s₁ := xmlDump_mono h.first hf
  refine ⟨h₁, ?_⟩
  simp only [GccXml.doXmlOutput, incompletePhase, h₁, Option.bind_eq_bind, Option.bind_some,
    xmlDump_mono h.second hf, Option.map_some]

end

end GccXml
