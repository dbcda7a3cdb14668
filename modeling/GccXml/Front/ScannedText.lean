import GccXml.Front.FlagSplitting

namespace GccXml

/-! # `Front.ScannedText` — the text that an argument was scanned from

The scanner as a relation between the text that it went over and the characters that it stored. An argument is a
sublist of its text, and is shorter by the marks and backslashes that the scanner took out. The relation is what
arguments are found with when the text was not written for them.

`Scanned` has one rule for each thing that the scanner does with a character: an escape, a mark that opens or closes
quotes, a character that is stored. Lengths, counts of blanks and the order of characters are inductions over it.
`Splits` is the same for a whole string, argument by argument, and `splits_of_commandLineParse` ties it to the code.

`exists_rest_of_sublist` is what it is used for: characters that were found in the arguments lie, in order, in the
text, and behind an argument that was found the rest of the arguments come from the rest of the text.
`Front.QuotedFlags` reads from it that flags which are split as they should be were written as they should be. -/

/-! ## One argument -/

/-- The state behind a quotation mark, where the character is one that changes the state. -/
def Quoted.behind : Quoted → Char → Option Quoted
  | .unquoted, '\'' => some .single
  | .unquoted, '"' => some .double
  | .single, '\'' => some .unquoted
  | .double, '"' => some .unquoted
  | _, _ => none

/-- In the state `quoted`, the scanner goes over `text` and stores `stored`. -/
inductive Scanned : Quoted → List Char → List Char → Prop where
  | nil (quoted : Quoted) : Scanned quoted [] []
  | escape {quoted : Quoted} (d : Char) {ds stored : List Char} (h : Scanned quoted ds stored) :
      Scanned quoted ('\\' :: d :: ds) (d :: stored)
  | mark {quoted quoted' : Quoted} {c : Char} {cs stored : List Char} (hc : quoted.behind c = some quoted')
      (h : Scanned quoted' cs stored) : Scanned quoted (c :: cs) stored
  | char {quoted : Quoted} {c : Char} {cs stored : List Char} (hescape : c ≠ '\\') (hc : quoted.behind c = none)
      (h : Scanned quoted cs stored) : Scanned quoted (c :: cs) (c :: stored)

namespace Quoted

variable {quoted quoted' : Quoted} {c : Char}

theorem behind_eq_none (hsingle : c ≠ '\'') (hdouble : c ≠ '"') (quoted : Quoted) : quoted.behind c = none := by
  unfold behind
  split <;> simp_all

theorem eq_mark_of_behind (h : quoted.behind c = some quoted') : c = '\'' ∨ c = '"' := by
  by_contra hc
  rw [not_or] at hc
  rw [behind_eq_none hc.1 hc.2] at h
  cases h

theorem behind_unquoted_ne_none (h : c = '\'' ∨ c = '"') : Quoted.unquoted.behind c ≠ none := by
  rcases h with rfl | rfl <;> simp [behind]

/-- The two quoted states, each with its mark. -/
def OpenedBy (quoted : Quoted) (quote : Char) : Prop :=
  quoted = .single ∧ quote = '\'' ∨ quoted = .double ∧ quote = '"'

theorem openedBy_single : Quoted.single.OpenedBy '\'' := .inl ⟨rfl, rfl⟩

theorem openedBy_double : Quoted.double.OpenedBy '"' := .inr ⟨rfl, rfl⟩

theorem OpenedBy.isMark (h : OpenedBy quoted c) : c = '\'' ∨ c = '"' := by
  rcases h with ⟨-, rfl⟩ | ⟨-, rfl⟩ <;> simp

theorem OpenedBy.behind_eq (h : OpenedBy quoted c) : quoted.behind c = some .unquoted := by
  rcases h with ⟨rfl, rfl⟩ | ⟨rfl, rfl⟩ <;> rfl

theorem OpenedBy.unquoted_behind (h : OpenedBy quoted c) : Quoted.unquoted.behind c = some quoted := by
  rcases h with ⟨rfl, rfl⟩ | ⟨rfl, rfl⟩ <;> rfl

theorem OpenedBy.behind_eq_none (h : OpenedBy quoted c) {d : Char} (hd : d ≠ c) : quoted.behind d = none := by
  rcases h with ⟨rfl, rfl⟩ | ⟨rfl, rfl⟩ <;> simp only [behind]
  all_goals split <;> simp_all

end Quoted

namespace Scanned

variable {quoted quoted' : Quoted} {c : Char} {text cs stored : List Char}

/-- **What is stored was read.** -/
theorem sublist (h : Scanned quoted text stored) : stored.Sublist text := by
  induction h with
  | nil quoted => exact .slnil
  | escape d h ih => exact (ih.cons_cons d).cons '\\'
  | mark hc h ih => exact ih.cons _
  | char hescape hc h ih => exact ih.cons_cons _

theorem length_le (h : Scanned quoted text stored) : stored.length ≤ text.length := h.sublist.length_le

/-- A blank that was read was stored. -/
theorem count_blank (h : Scanned quoted text stored) : stored.count ' ' = text.count ' ' := by
  induction h with
  | nil quoted => rfl
  | escape d h ih => rw [List.count_cons_of_ne (by decide : '\\' ≠ ' '), List.count_cons, List.count_cons, ih]
  | @mark quoted quoted' c cs stored hc h ih =>
      have hne : c ≠ ' ' := by
        rintro rfl
        simpa using Quoted.eq_mark_of_behind hc
      rw [List.count_cons_of_ne hne, ih]
  | char hescape hc h ih => rw [List.count_cons, List.count_cons, ih]

theorem char_inv (h : Scanned quoted (c :: cs) stored) (hescape : c ≠ '\\') (hc : quoted.behind c = none) :
    ∃ stored', stored = c :: stored' ∧ Scanned quoted cs stored' := by
  cases h with
  | escape d h => exact absurd rfl hescape
  | mark hmark h => rw [hc] at hmark; cases hmark
  | char _ _ h => exact ⟨_, rfl, h⟩

theorem mark_inv (h : Scanned quoted (c :: cs) stored) (hc : quoted.behind c = some quoted') :
    Scanned quoted' cs stored := by
  have hmark := Quoted.eq_mark_of_behind hc
  cases h with
  | escape d h => simp at hmark
  | mark hmark' h =>
      rw [hc] at hmark'
      obtain rfl := Option.some.inj hmark'
      exact h
  | char _ hnone h => rw [hc] at hnone; cases hnone

theorem escape_inv (h : Scanned quoted ('\\' :: cs) stored) :
    ∃ d ds stored', cs = d :: ds ∧ stored = d :: stored' ∧ Scanned quoted ds stored' := by
  cases h with
  | escape d h => exact ⟨d, _, _, rfl, rfl, h⟩
  | mark hmark h => simpa using Quoted.eq_mark_of_behind hmark
  | char hescape _ h => exact absurd rfl hescape

/-- Characters that mean nothing to the scanner are stored as they are. -/
theorem plain_inv {lead : List Char} (h : Scanned quoted (lead ++ cs) stored)
    (hlead : ∀ c ∈ lead, c ≠ '\\' ∧ quoted.behind c = none) :
    ∃ stored', stored = lead ++ stored' ∧ Scanned quoted cs stored' := by
  induction lead generalizing stored with
  | nil => exact ⟨stored, rfl, h⟩
  | cons c lead ih =>
      rw [List.forall_mem_cons] at hlead
      obtain ⟨stored', rfl, h'⟩ := h.char_inv hlead.1.1 hlead.1.2
      obtain ⟨rest, rfl, hrest⟩ := ih h' hlead.2
      exact ⟨rest, rfl, hrest⟩

/-- Where nothing was taken out there was no mark and no backslash. -/
theorem eq_of_length (h : Scanned quoted text stored) (hlen : text.length ≤ stored.length) :
    text = stored ∧ ∀ c ∈ text, quoted.behind c = none := by
  induction h with
  | nil quoted => exact ⟨rfl, by simp⟩
  | escape d h ih =>
      have := h.length_le
      simp only [List.length_cons] at hlen
      omega
  | mark hc h ih =>
      have := h.length_le
      simp only [List.length_cons] at hlen
      omega
  | char hescape hc h ih =>
      obtain ⟨heq, hnone⟩ := ih (by simpa using hlen)
      exact ⟨by rw [heq], List.forall_mem_cons.mpr ⟨hc, hnone⟩⟩

end Scanned

/-- **The scanner follows the relation** up to where it stops. -/
theorem scanned_of_scanArgument {quoted : Quoted} {cs out c out' : List Char}
    (h : scanArgument quoted cs out = .value (c, out')) :
    ∃ text stored, cs = text ++ c ∧ out' = out ++ stored ∧ Scanned quoted text stored ∧
      ∀ x ∈ c.head?, isspace x = true := by
  fun_induction scanArgument quoted cs out with
  | case1 =>
      obtain ⟨rfl, rfl⟩ := Prod.mk.inj (Read.value.inj h)
      exact ⟨[], [], rfl, by simp, .nil _, by simp⟩
  | case2 => cases h
  | case3 quoted out d ds hloop ih =>
      obtain ⟨text, stored, rfl, rfl, hscan, hstop⟩ := ih h
      exact ⟨_, _, rfl, by simp, hscan.escape d, hstop⟩
  | case4 quoted x cs out hloop hx hclose ih =>
      obtain ⟨text, stored, rfl, rfl, hscan, hstop⟩ := ih h
      exact ⟨_, _, rfl, rfl, .mark (Quoted.OpenedBy.behind_eq hclose) hscan, hstop⟩
  | case5 quoted x cs out hloop hx hclose hopen ih =>
      obtain ⟨text, stored, rfl, rfl, hscan, hstop⟩ := ih h
      obtain ⟨rfl, rfl⟩ := hopen
      exact ⟨_, _, rfl, rfl, .mark rfl hscan, hstop⟩
  | case6 quoted x cs out hloop hx hclose hsingle hopen ih =>
      obtain ⟨text, stored, rfl, rfl, hscan, hstop⟩ := ih h
      obtain ⟨rfl, rfl⟩ := hopen
      exact ⟨_, _, rfl, rfl, .mark rfl hscan, hstop⟩
  | case7 quoted x cs out hloop hx hclose hsingle hdouble ih =>
      obtain ⟨text, stored, rfl, rfl, hscan, hstop⟩ := ih h
      have hnone : quoted.behind x = none := by
        cases hb : quoted.behind x with
        | none => rfl
        | some quoted' =>
            rcases Quoted.eq_mark_of_behind hb with rfl | rfl <;> cases quoted <;> simp_all [Quoted.behind]
      exact ⟨_, _, rfl, by simp, .char hx hnone hscan, hstop⟩
  | case8 quoted x cs out hstop =>
      obtain ⟨rfl, rfl⟩ := Prod.mk.inj (Read.value.inj h)
      have hspace : isspace x = true := by simpa using (not_or.mp hstop).2
      exact ⟨[], [], rfl, by simp, .nil _, by simpa using hspace⟩

/-! ## The arguments of a text -/

/-- A place where an argument can end: the end of the text, or white space. -/
def AtArgumentEnd (text : List Char) : Prop := ∀ x ∈ text.head?, isspace x = true

/-- The arguments that `text` is split into. -/
inductive Splits : List Char → List (List Char) → Prop where
  | done {text : List Char} (h : text.dropWhile isspace = []) : Splits text []
  | argument {text rest a : List Char} {args : List (List Char)} (hne : text.dropWhile isspace ≠ [])
      (hscan : scanArgument .unquoted (text.dropWhile isspace) [] = .value (rest, a)) (h : Splits rest args) :
      Splits text (a :: args)

theorem splits_iff_dropWhile {text : List Char} {args : List (List Char)} :
    Splits (text.dropWhile isspace) args ↔ Splits text args := by
  have hidem : (text.dropWhile isspace).dropWhile isspace = text.dropWhile isspace := List.dropWhile_idempotent isspace _
  constructor <;> intro h <;> cases h with
  | done h => exact .done (by simpa [hidem] using h)
  | argument hne hscan h => exact .argument (by simpa [hidem] using hne) (by simpa [hidem] using hscan) h

/-- What has been written already only stands in front. -/
theorem scanArgument_append (before : List Char) (quoted : Quoted) (cs out : List Char) :
    scanArgument quoted cs (before ++ out) =
      (scanArgument quoted cs out).map fun (c, stored) => (c, before ++ stored) := by
  fun_induction scanArgument quoted cs out with
  | case1 => simp [Read.map]
  | case2 quoted out hloop => simp [scanArgument, isspace, Read.map]
  | case3 quoted out d ds hloop ih => rw [scanArgument_escape, List.append_assoc, ih]
  | case4 quoted c cs out hloop hc hclose ih => rw [scanArgument_cons hc, if_pos hloop, if_pos hclose, ih]
  | case5 quoted c cs out hloop hc hclose hopen ih =>
      rw [scanArgument_cons hc, if_pos hloop, if_neg hclose, if_pos hopen, ih]
  | case6 quoted c cs out hloop hc hclose hsingle hopen ih =>
      rw [scanArgument_cons hc, if_pos hloop, if_neg hclose, if_neg hsingle, if_pos hopen, ih]
  | case7 quoted c cs out hloop hc hclose hsingle hdouble ih =>
      rw [scanArgument_cons hc, if_pos hloop, if_neg hclose, if_neg hsingle, if_neg hdouble, List.append_assoc, ih]
  | case8 quoted c cs out hstop =>
      have hc : c ≠ '\\' := ne_backslash_of_isspace (by simpa using (not_or.mp hstop).2)
      rw [scanArgument_cons hc, if_neg hstop]
      rfl

/-- The scan of the text left over from a pass packs the arguments of that text. -/
theorem loopRun_scanPass {fuel : Nat} {s : ScanState} {argc : Nat} {buffer : List Char}
    (hstart : s.c.dropWhile isspace = s.c) (h : loopRun scanPass fuel s = some (.value (argc, buffer))) :
    ∃ args, Splits s.c args ∧ argc = s.n + args.length ∧ buffer = s.out ++ pack args := by
  induction fuel generalizing s with
  | zero => cases h
  | succ fuel ih =>
      obtain ⟨c, out, n⟩ := s
      cases c with
      | nil =>
          have hpass : scanPass ⟨[], out, n⟩ = .leave (.value (n, out)) := rfl
          rw [Loop.loopRun_leave hpass] at h
          obtain ⟨rfl, rfl⟩ := Prod.mk.inj (Read.value.inj (Option.some.inj h))
          exact ⟨[], .done rfl, rfl, by simp [pack]⟩
      | cons x cs =>
          have happend := scanArgument_append out .unquoted (x :: cs) []
          rw [List.append_nil] at happend
          cases hscan : scanArgument .unquoted (x :: cs) [] with
          | outOfBounds =>
              -- one argument and the blanks behind it, after which the pass starts again at the rest
              rw [hscan] at happend
              have hpass : scanPass ⟨x :: cs, out, n⟩ = .leave .outOfBounds := by simp only [scanPass, happend, Read.map]
              rw [Loop.loopRun_leave hpass] at h
              cases h
          | value r =>
              obtain ⟨rest, a⟩ := r
              rw [hscan] at happend
              have hpass : scanPass ⟨x :: cs, out, n⟩ = .again ⟨rest.dropWhile isspace, (out ++ a) ++ [nul], n + 1⟩ := by
                simp only [scanPass, happend, Read.map]
              rw [Loop.loopRun_again hpass] at h
              obtain ⟨args, hsplits, hargc, hbuffer⟩ := ih (List.dropWhile_idempotent isspace _) h
              refine ⟨a :: args, ?_, ?_, ?_⟩
              · refine .argument ?_ (by rw [hstart]; exact hscan) (splits_iff_dropWhile.mp hsplits)
                rw [hstart]
                simp
              · simp only [hargc, List.length_cons]
                omega
              · rw [hbuffer, pack_cons]
                simp

namespace Splits

variable {text a : List Char} {args : List (List Char)}

/-- The first argument, and the text behind it. -/
theorem cons_inv (h : Splits text (a :: args)) :
    ∃ taken rest, text.dropWhile isspace = taken ++ rest ∧ Scanned .unquoted taken a ∧ AtArgumentEnd rest ∧ Splits rest args := by
  cases h with
  | argument hne hscan h =>
      obtain ⟨taken, stored, htext, rfl, hscanned, hstop⟩ := scanned_of_scanArgument hscan
      exact ⟨taken, _, htext, hscanned, hstop, h⟩

theorem dropWhile_suffix (text : List Char) : text.dropWhile isspace <:+ text := List.dropWhile_suffix _

/-- **An argument that is found** leaves a text that is shorter by it, and the arguments behind it are found there. -/
theorem exists_rest_of_sublist {e : List Char} {es : List (List Char)} (h : Splits text args)
    (hs : (e :: es).Sublist args) :
    ∃ rest args', Splits rest args' ∧ es.Sublist args' ∧ AtArgumentEnd rest ∧ rest <:+ text ∧
      rest.length + e.length ≤ (text.dropWhile isspace).length := by
  induction args generalizing text with
  | nil => cases hs
  | cons a args ih =>
      obtain ⟨taken, rest, htext, hscanned, hbreak, hrest⟩ := h.cons_inv
      have hsuffix : rest <:+ text := (htext ▸ List.suffix_append taken rest).trans (dropWhile_suffix text)
      have hlen := congrArg List.length htext
      rw [List.length_append] at hlen
      cases hs with
      | cons _ hs =>
          obtain ⟨rest', args', h', hs', hbreak', hsuffix', hlen'⟩ := ih hrest hs
          have := (dropWhile_suffix rest).length_le
          exact ⟨rest', args', h', hs', hbreak', hsuffix'.trans hsuffix, by omega⟩
      | cons_cons _ hs =>
          have := hscanned.length_le
          exact ⟨rest, args, hrest, hs, hbreak, hsuffix, by omega⟩

/-- An argument is a sublist of the text. -/
theorem sublist (h : Splits text args) : ∀ a ∈ args, a.Sublist text := by
  induction args generalizing text with
  | nil => simp
  | cons a args ih =>
      obtain ⟨taken, rest, htext, hscanned, -, hrest⟩ := h.cons_inv
      have hdrop := (dropWhile_suffix text).sublist
      rw [htext] at hdrop
      refine List.forall_mem_cons.mpr ⟨?_, fun b hb => ?_⟩
      · exact (hscanned.sublist.trans (List.sublist_append_left taken rest)).trans hdrop
      · exact ((ih hrest b hb).trans (List.sublist_append_right taken rest)).trans hdrop

end Splits

/-- **What the flags are split into.** -/
theorem splits_of_commandLineParse {chars : List Char} (hnul : nul ∉ chars) {argc : Nat} {argv : List (List Char)}
    (h : gxFlags_CommandLineParse chars = some (.value (argc, argv))) : Splits chars argv := by
  rw [gxFlags_CommandLineParse, Option.map_eq_some_iff] at h
  obtain ⟨scanned, hscan, hsplit⟩ := h
  cases scanned with
  | outOfBounds => cases hsplit
  | value r =>
      obtain ⟨n, buffer⟩ := r
      obtain ⟨args, hargs, hn, hbuffer⟩ := loopRun_scanPass (List.dropWhile_idempotent isspace _) hscan
      rw [splits_iff_dropWhile] at hargs
      have hfree : ∀ a ∈ args, nul ∉ a := fun a ha hmem => hnul ((hargs.sublist a ha).subset hmem)
      simp only [List.nil_append, Nat.zero_add] at hn hbuffer
      rw [hn, hbuffer] at hsplit
      simp only [Read.bind, splitBuffer_pack args hfree, Read.map, Read.value.injEq, Prod.mk.injEq] at hsplit
      rw [← hsplit.2]
      exact hargs

end GccXml
