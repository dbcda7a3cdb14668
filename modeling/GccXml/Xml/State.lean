import GccXml.Xml.Dump

namespace GccXml

/-! # `Xml.State` — what an effect does to the state of the dump

The fields after `xml_add_node_real`, the coherence of indices that every effect keeps, and what never changes back.

An effect is a request, a queued file or a fragment of text, and a run is nothing but effects, one after the other. So
a property of all states is shown by what one effect does to each field (`execAll_induct`). The first part computes the
fields after `xml_add_node_real`: a new node gets the next index, a known one may become complete, and what becomes
complete is queued.

`Coherent` is the first such property: indices are given out once each, and everything that is queued, printed or
returned has one. `Extends` compares a state with a later one: a node keeps its index, a complete node stays complete,
a file keeps its number. The later modules speak about the state at the end of a run, and by `Extends` what they say
was true, as far as it was known, when a fragment was written. -/

namespace DumpInfo

variable {Node : Type} [DecidableEq Node]

/-! ## The fields after an effect -/

section
variable (s : DumpInfo Node) (n : Node) (c : Bool)

/-- The call of `xml_add_node_real` for a node that has no index yet. -/
theorem addNodeReal_new (hi : s.index n = 0) :
    s.addNodeReal n c =
      { s with
        nextIndex := s.nextIndex + 1
        queue := s.queue ++ if c || !s.requireComplete then [n] else []
        dumpNodes := fun m => if m = n then some ⟨s.nextIndex, c⟩ else s.dumpNodes m
        registrations := s.registrations ++ [⟨n, c, s.requireComplete, s.nextIndex⟩]
        dumpBugs := s.dumpBugs ++ if !s.requireComplete && c then [n] else [] } := by
  simp only [index] at hi
  simp only [addNodeReal, hi, ne_eq, not_true_eq_false, if_false]
  obtain ⟨_, rc, _, _, _, _, _, _, _, _, _⟩ := s
  cases rc <;> cases c <;> simp [recordCall, setDumpNode, queueNode]

/-- The call of `xml_add_node_real` for a node that has an index. -/
theorem addNodeReal_known (hi : s.index n ≠ 0) :
    s.addNodeReal n c =
      { s with
        queue := s.queue ++ if c && !s.complete n then [n] else []
        dumpNodes := fun m =>
          if m = n ∧ (c && !s.complete n) then some ⟨s.index n, true⟩ else s.dumpNodes m
        registrations := s.registrations ++ [⟨n, c, s.requireComplete, s.index n⟩] } := by
  simp only [index] at hi
  simp only [addNodeReal, hi, ne_eq, not_false_eq_true, if_true, complete, index]
  by_cases hc : (c && !(s.dumpNode n).complete) = true
  · simp only [hc, if_true, and_true]
    rfl
  · simp [hc, recordCall]

@[simp] theorem requireComplete_addNodeReal : (s.addNodeReal n c).requireComplete = s.requireComplete := by
  by_cases hi : s.index n = 0
  · rw [addNodeReal_new s n c hi]
  · rw [addNodeReal_known s n c hi]

@[simp] theorem file_addNodeReal : (s.addNodeReal n c).file = s.file := by
  by_cases hi : s.index n = 0
  · rw [addNodeReal_new s n c hi]
  · rw [addNodeReal_known s n c hi]

@[simp] theorem dumped_addNodeReal : (s.addNodeReal n c).dumped = s.dumped := by
  by_cases hi : s.index n = 0
  · rw [addNodeReal_new s n c hi]
  · rw [addNodeReal_known s n c hi]

@[simp] theorem fileNodes_addNodeReal : (s.addNodeReal n c).fileNodes = s.fileNodes := by
  by_cases hi : s.index n = 0
  · rw [addNodeReal_new s n c hi]
  · rw [addNodeReal_known s n c hi]

/-- The index of a node stays, once it has one; a new node gets the next index. -/
theorem index_addNodeReal (m : Node) :
    (s.addNodeReal n c).index m = if m = n ∧ s.index n = 0 then s.nextIndex else s.index m := by
  by_cases hi : s.index n = 0
  · rw [addNodeReal_new s n c hi]
    by_cases hm : m = n
    · simp only [hm, hi, and_self, if_true]; simp [index, dumpNode]
    · simp [index, dumpNode, hm]
  · rw [addNodeReal_known s n c hi]
    by_cases hm : m = n
    · subst hm
      simp only [hi, and_false, if_false]
      cases hc : c && !s.complete m <;> simp [index, dumpNode]
    · simp [index, dumpNode, hm]

theorem nextIndex_addNodeReal :
    (s.addNodeReal n c).nextIndex = if s.index n = 0 then s.nextIndex + 1 else s.nextIndex := by
  by_cases hi : s.index n = 0
  · rw [addNodeReal_new s n c hi, if_pos hi]
  · rw [addNodeReal_known s n c hi, if_neg hi]

/-- The call is recorded with the index it returns, which is the index of its node afterwards. -/
theorem registrations_addNodeReal :
    (s.addNodeReal n c).registrations =
      s.registrations ++ [⟨n, c, s.requireComplete, (s.addNodeReal n c).index n⟩] := by
  by_cases hi : s.index n = 0
  · have hidx : (s.addNodeReal n c).index n = s.nextIndex := by simp [index_addNodeReal, hi]
    rw [hidx, addNodeReal_new s n c hi]
  · have hidx : (s.addNodeReal n c).index n = s.index n := by simp [index_addNodeReal, hi]
    rw [hidx, addNodeReal_known s n c hi]

end

/-! ## Coherence -/

/-- Indices are given out once each, and everything that is queued, printed or returned has one. -/
structure Coherent (s : DumpInfo Node) : Prop where
  index_lt : ∀ n, s.index n < s.nextIndex
  index_inj : ∀ n m, s.index n ≠ 0 → s.index n = s.index m → n = m
  stored : ∀ n dn, s.dumpNodes n = some dn → dn.index ≠ 0
  queued : ∀ n ∈ s.queue, s.index n ≠ 0
  dumped : ∀ d ∈ s.dumped, s.index d.1 ≠ 0
  returned : ∀ r ∈ s.registrations, r.index ≠ 0 ∧ s.index r.node = r.index

omit [DecidableEq Node] in
theorem Coherent.init : Coherent ({} : DumpInfo Node) where
  index_lt n := by simp [index, dumpNode]
  index_inj n m h := by simp [index, dumpNode] at h
  stored n dn h := by simp at h
  queued n h := by simp at h
  dumped d h := by simp at h
  returned r h := by simp at h

omit [DecidableEq Node] in
theorem Coherent.dumpNodes_none {s : DumpInfo Node} (h : s.Coherent) {n : Node} (hi : s.index n = 0) :
    s.dumpNodes n = none := by
  cases hn : s.dumpNodes n with
  | none => rfl
  | some dn =>
      have hne := h.stored n dn hn
      simp only [index, dumpNode, hn, Option.getD_some] at hi
      exact absurd hi hne

omit [DecidableEq Node] in
theorem Coherent.index_of_complete {s : DumpInfo Node} (h : s.Coherent) {n : Node} (hc : s.complete n = true) :
    s.index n ≠ 0 := by
  intro hi
  simp [complete, dumpNode, h.dumpNodes_none hi] at hc

omit [DecidableEq Node] in
theorem Coherent.complete_eq_false {s : DumpInfo Node} (h : s.Coherent) {n : Node} (hi : s.index n = 0) :
    s.complete n = false := by
  simp [complete, dumpNode, h.dumpNodes_none hi]

/-- A node is complete after `xml_add_node_real` if it was before or the call said so. -/
theorem complete_addNodeReal {s : DumpInfo Node} (h : s.Coherent) (n : Node) (c : Bool) (m : Node) :
    (s.addNodeReal n c).complete m = (s.complete m || (decide (m = n) && c)) := by
  by_cases hi : s.index n = 0
  · rw [addNodeReal_new s n c hi]
    by_cases hm : m = n
    · subst hm
      rw [h.complete_eq_false hi]
      simp [complete, dumpNode]
    · simp [complete, dumpNode, hm]
  · rw [addNodeReal_known s n c hi]
    by_cases hm : m = n
    · subst hm
      cases c <;> cases hd : s.complete m <;> simp [complete, dumpNode] at hd ⊢ <;> simp [hd]
    · simp [complete, dumpNode, hm]

/-- A node is queued when it becomes complete, and in the incomplete phase also when it is new. -/
theorem queue_addNodeReal {s : DumpInfo Node} (h : s.Coherent) (n : Node) (c : Bool) :
    (s.addNodeReal n c).queue =
      s.queue ++ if (c && !s.complete n) || (s.index n = 0 && !s.requireComplete) then [n] else [] := by
  by_cases hi : s.index n = 0
  · rw [addNodeReal_new s n c hi, h.complete_eq_false hi]
    simp [hi]
  · rw [addNodeReal_known s n c hi]
    simp [hi]

theorem index_addNodeReal_ne_zero {s : DumpInfo Node} (h : s.Coherent) (n : Node) (c : Bool) :
    (s.addNodeReal n c).index n ≠ 0 := by
  rw [index_addNodeReal]
  split
  · exact Nat.ne_of_gt (Nat.lt_of_le_of_lt (Nat.zero_le _) (h.index_lt n))
  · rename_i hi
    exact fun h0 => hi ⟨rfl, h0⟩

/-- An index that has been given stays. -/
theorem index_addNodeReal_of_ne_zero (s : DumpInfo Node) (n : Node) (c : Bool) {m : Node} (hm : s.index m ≠ 0) :
    (s.addNodeReal n c).index m = s.index m := by
  rw [index_addNodeReal]
  split
  · rename_i h; exact absurd (h.1 ▸ h.2) hm
  · rfl

theorem Coherent.addNodeReal {s : DumpInfo Node} (h : s.Coherent) (n : Node) (c : Bool) :
    (s.addNodeReal n c).Coherent := by
  -- a node that has an index keeps it
  have hkeep := fun m (hm : s.index m ≠ 0) => index_addNodeReal_of_ne_zero s n c hm
  refine ⟨fun m => ?_, fun m k hm hk => ?_, fun m dn hm => ?_, fun m hm => ?_, fun d hd => ?_, fun r hr => ?_⟩
  · rw [index_addNodeReal, nextIndex_addNodeReal]
    have hlt := h.index_lt m
    split
    · rename_i hi; rw [if_pos hi.2]; omega
    · split <;> omega
  · simp only [index_addNodeReal] at hm hk
    have hmlt := h.index_lt m
    have hklt := h.index_lt k
    -- the new index is above every index given before
    by_cases hmn : m = n ∧ s.index n = 0 <;> by_cases hkn : k = n ∧ s.index n = 0
    · rw [hmn.1, hkn.1]
    · rw [if_pos hmn, if_neg hkn] at hk; omega
    · rw [if_neg hmn, if_pos hkn] at hk; omega
    · rw [if_neg hmn] at hm
      rw [if_neg hmn, if_neg hkn] at hk
      exact h.index_inj m k hm hk
  · by_cases hmn : m = n
    · have hidx := index_addNodeReal_ne_zero h n c
      rw [← hmn] at hidx hm
      simpa [index, dumpNode, hm] using hidx
    · refine h.stored m dn ?_
      rw [← hm]
      by_cases hi : s.index n = 0
      · rw [addNodeReal_new s n c hi]; simp [hmn]
      · rw [addNodeReal_known s n c hi]; simp [hmn]
  · rw [queue_addNodeReal h] at hm
    rcases List.mem_append.mp hm with hm | hm
    · rw [hkeep m (h.queued m hm)]; exact h.queued m hm
    · split at hm
      · rw [List.mem_singleton.mp hm]; exact index_addNodeReal_ne_zero h n c
      · simp at hm
  · rw [dumped_addNodeReal] at hd
    rw [hkeep _ (h.dumped d hd)]; exact h.dumped d hd
  · rw [registrations_addNodeReal] at hr
    rcases List.mem_append.mp hr with hr | hr
    · obtain ⟨hne, heq⟩ := h.returned r hr
      exact ⟨hne, by rw [hkeep _ (heq ▸ hne), heq]⟩
    · rw [List.mem_singleton.mp hr]
      exact ⟨index_addNodeReal_ne_zero h n c, rfl⟩

/-! ## Induction over the effects of a printing function -/

section
variable {tu : TranslationUnit Node}

@[simp] theorem execAll_nil (s : DumpInfo Node) : s.execAll tu [] = s := rfl

@[simp] theorem execAll_cons (s : DumpInfo Node) (a : Action Node) (log : List (Action Node)) :
    s.execAll tu (a :: log) = (s.exec tu a).execAll tu log := rfl

theorem execAll_append (s : DumpInfo Node) (log log' : List (Action Node)) :
    s.execAll tu (log ++ log') = (s.execAll tu log).execAll tu log' := List.foldl_append

/-- What the calls of `xml_add_node_real` keep, and writing and queueing files keep, a printing function keeps. The
    calls are those of its requests. -/
theorem execAll_induct {P : DumpInfo Node → Prop} {log : List (Action Node)}
    (hreal : ∀ s m c, .addNode m c ∈ log → ∀ r ∈ registered tu m c, P s → P (s.addNodeReal r c))
    (hwrite : ∀ s frag, P s → P (s.write frag)) (hfile : ∀ s name, .queueFile name ∈ log → P s → P (s.queueFile name))
    {s : DumpInfo Node} (h : P s) : P (s.execAll tu log) := by
  induction log generalizing s with
  | nil => exact h
  | cons a log ih =>
      refine ih (fun s m c hmem => hreal s m c (List.mem_cons_of_mem _ hmem))
        (fun s name hmem => hfile s name (List.mem_cons_of_mem _ hmem)) ?_
      cases a with
      | emit frag => exact hwrite s frag h
      | queueFile name => exact hfile s name List.mem_cons_self h
      | addNode n c =>
          have hregs : ∀ regs : List Node, (∀ r ∈ regs, r ∈ registered tu n c) → ∀ s, P s →
              P (s.register (regs.map (·, c))) := by
            intro regs hsub
            induction regs with
            | nil => exact fun s h => h
            | cons r regs ihr =>
                exact fun s h => ihr (fun x hx => hsub x (List.mem_cons_of_mem _ hx)) _
                  (hreal s n c List.mem_cons_self r (hsub r List.mem_cons_self) h)
          show P (s.register (xmlAddNode tu n c).log)
          rw [xmlAddNode_log]
          exact hregs _ (fun _ hx => hx) s h

omit [DecidableEq Node] in
theorem queueFile_eq (s : DumpInfo Node) (name : String) :
    ∃ fi fq fn, s.queueFile name = { s with fileIndex := fi, fileQueue := fq, fileNodes := fn } := by
  unfold queueFile
  split
  · exact ⟨_, _, _, rfl⟩
  · exact ⟨_, _, _, rfl⟩

omit [DecidableEq Node] in
theorem Coherent.write {s : DumpInfo Node} (h : s.Coherent) (frag : SymFrag Node) : (s.write frag).Coherent :=
  ⟨h.index_lt, h.index_inj, h.stored, h.queued, h.dumped, h.returned⟩

omit [DecidableEq Node] in
theorem Coherent.queueFile {s : DumpInfo Node} (h : s.Coherent) (name : String) :
    (s.queueFile name).Coherent := by
  obtain ⟨fi, fq, fn, heq⟩ := queueFile_eq s name
  rw [heq]
  exact ⟨h.index_lt, h.index_inj, h.stored, h.queued, h.dumped, h.returned⟩

theorem Coherent.execAll {s : DumpInfo Node} (h : s.Coherent) (log : List (Action Node)) :
    (s.execAll tu log).Coherent :=
  execAll_induct (fun _ _ c _ r _ h => h.addNodeReal r c) (fun _ f h => h.write f)
    (fun _ name _ h => h.queueFile name) h

/-! ## What never changes back -/

/-- `s'` is a later state than `s`: indices of nodes and files stay, complete nodes stay complete. -/
structure Extends (s s' : DumpInfo Node) : Prop where
  index : ∀ n, s.index n ≠ 0 → s'.index n = s.index n
  complete : ∀ n, s.complete n = true → s'.complete n = true
  file : ∀ f i, s.fileNodes f = some i → s'.fileNodes f = some i

omit [DecidableEq Node] in
theorem Extends.refl (s : DumpInfo Node) : Extends s s := ⟨fun _ _ => rfl, fun _ h => h, fun _ _ h => h⟩

omit [DecidableEq Node] in
theorem Extends.trans {s s' s'' : DumpInfo Node} (h : Extends s s') (h' : Extends s' s'') : Extends s s'' where
  index n hn := (h'.index n (by rw [h.index n hn]; exact hn)).trans (h.index n hn)
  complete n hn := h'.complete n (h.complete n hn)
  file f i hf := h'.file f i (h.file f i hf)

omit [DecidableEq Node] in
theorem Extends.index_ne_zero {s s' : DumpInfo Node} (h : Extends s s') {n : Node} (hn : s.index n ≠ 0) :
    s'.index n ≠ 0 := by rw [h.index n hn]; exact hn

theorem Extends.addNodeReal {s : DumpInfo Node} (h : s.Coherent) (n : Node) (c : Bool) :
    Extends s (s.addNodeReal n c) where
  index m hm := index_addNodeReal_of_ne_zero s n c hm
  complete m hm := by rw [complete_addNodeReal h, hm, Bool.true_or]
  file f i hf := by rw [fileNodes_addNodeReal]; exact hf

omit [DecidableEq Node] in
theorem Extends.queueFile (s : DumpInfo Node) (name : String) : Extends s (s.queueFile name) := by
  have hfile : ∀ f i, s.fileNodes f = some i → (s.queueFile name).fileNodes f = some i := by
    intro f i hf
    unfold DumpInfo.queueFile
    split
    · exact hf
    · rename_i hnone
      have hne : f ≠ name := by rintro rfl; rw [hnone] at hf; cases hf
      simpa [hne] using hf
  obtain ⟨fi, fq, fn, heq⟩ := queueFile_eq s name
  rw [heq] at hfile ⊢
  exact ⟨fun _ _ => rfl, fun _ h => h, hfile⟩

theorem Extends.execAll {s : DumpInfo Node} (h : s.Coherent) (log : List (Action Node)) :
    Extends s (s.execAll tu log) := by
  have hboth : (s.execAll tu log).Coherent ∧ Extends s (s.execAll tu log) :=
    @execAll_induct _ _ tu (fun s' => s'.Coherent ∧ Extends s s') log
      (fun _ _ c _ r _ hs => ⟨hs.1.addNodeReal r c, hs.2.trans (.addNodeReal hs.1 r c)⟩)
      (fun _ frag hs => ⟨hs.1.write frag, hs.2.trans ⟨fun _ _ => rfl, fun _ h => h, fun _ _ h => h⟩⟩)
      (fun s' name _ hs => ⟨hs.1.queueFile name, hs.2.trans (.queueFile s' name)⟩) s ⟨h, .refl s⟩
  exact hboth.2

/-- A registration gives its node an index, and a complete one makes it complete. -/
theorem register_of_mem {s : DumpInfo Node} (h : s.Coherent) {log : List (Node × Bool)} {r : Node} {c : Bool}
    (hr : (r, c) ∈ log) :
    (s.register log).index r ≠ 0 ∧ (c = true → (s.register log).complete r = true) := by
  have hext : ∀ (log : List (Node × Bool)) (s : DumpInfo Node), s.Coherent → Extends s (s.register log) := by
    intro log
    induction log with
    | nil => exact fun s _ => .refl s
    | cons r log ih => exact fun s h => (Extends.addNodeReal h r.1 r.2).trans (ih _ (h.addNodeReal r.1 r.2))
  induction log generalizing s with
  | nil => simp at hr
  | cons x log ih =>
      rcases List.mem_cons.mp hr with rfl | hr
      · have hlater := hext log _ (h.addNodeReal r c)
        refine ⟨hlater.index_ne_zero (index_addNodeReal_ne_zero h r c), fun hc => hlater.complete r ?_⟩
        rw [complete_addNodeReal h, hc]; simp
      · exact ih (h.addNodeReal x.1 x.2) hr

/-- After a printing function has run, everything its requests register has an index, and is complete if the request
    was. -/
theorem execAll_of_mem {s : DumpInfo Node} (h : s.Coherent) {log : List (Action Node)} {m r : Node} {c : Bool}
    (hm : .addNode m c ∈ log) (hr : r ∈ registered tu m c) :
    (s.execAll tu log).index r ≠ 0 ∧ (c = true → (s.execAll tu log).complete r = true) := by
  induction log generalizing s with
  | nil => simp at hm
  | cons a log ih =>
      have hexec : (s.exec tu a).Coherent := h.execAll [a]
      rcases List.mem_cons.mp hm with rfl | hm
      · have hlater : Extends (s.exec tu (.addNode m c)) ((s.exec tu (.addNode m c)).execAll tu log) :=
          .execAll hexec log
        have hnow := register_of_mem h ((mem_registered tu).mp hr)
        exact ⟨hlater.index_ne_zero hnow.1, fun hc => hlater.complete r (hnow.2 hc)⟩
      · exact ih hexec hm

end

end DumpInfo

end GccXml
