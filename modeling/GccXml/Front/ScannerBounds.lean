import GccXml.Front.FlagsParser
import Mathlib.Data.List.DropRight
import Mathlib.Data.List.TakeWhile
import Mathlib.Algebra.Group.Nat.Even

namespace GccXml

/-! # `Front.ScannerBounds` — where the scanner of the flags reads and writes

An escape takes two characters, so a backslash that ends the string is the first of an escape exactly when an odd
number of backslashes ends the string. Then the scanner steps over the NUL. On every other string it ends, reads
nothing behind the NUL, and writes no more than one character for each one it reads and a last NUL.

The number of backslashes at the end of what is still to be read keeps its parity: an escape takes two characters from
the front, and everything else takes one that is no backslash. That is what is carried through an argument
(`ArgumentScanned`, by induction on the text with the escape as a case of its own) and then through the string
(`ScanInside`, the invariant of the loop over arguments), together with the room that is left in the working space. -/

/-! ## Trailing backslashes -/

/-- How many backslashes a string ends in. -/
def trailingBackslashes (chars : List Char) : Nat := (chars.rtakeWhile (· = '\\')).length

theorem trailingBackslashes_all {cs : List Char} (h : ∀ c ∈ cs, c = '\\') : trailingBackslashes cs = cs.length := by
  rw [trailingBackslashes, List.rtakeWhile_eq_self_iff.mpr (by simpa using h)]

/-- Once there is another character, what precedes it does not count. -/
theorem trailingBackslashes_cons_of_mem (x : Char) {cs : List Char} (h : ¬ ∀ c ∈ cs, c = '\\') :
    trailingBackslashes (x :: cs) = trailingBackslashes cs := by
  have hshort : (cs.reverse.takeWhile (· = '\\')).length ≠ cs.reverse.length := by
    intro hlen
    have hself := (List.takeWhile_prefix _).eq_of_length hlen
    exact h (by simpa using List.takeWhile_eq_self_iff.mp hself)
  simp only [trailingBackslashes, List.rtakeWhile, List.reverse_cons, List.takeWhile_append]
  rw [if_neg hshort]

theorem trailingBackslashes_cons_of_ne {x : Char} (hx : x ≠ '\\') (cs : List Char) :
    trailingBackslashes (x :: cs) = trailingBackslashes cs := by
  by_cases h : ∀ c ∈ cs, c = '\\'
  · have hrev : ∀ c ∈ cs.reverse, decide (c = '\\') = true := by simpa using h
    simp only [trailingBackslashes, List.rtakeWhile, List.reverse_cons, List.takeWhile_append_of_pos hrev,
      List.takeWhile_eq_self_iff.mpr hrev]
    simp [hx]
  · exact trailingBackslashes_cons_of_mem x h

/-- An escape at the front does not change the parity. -/
theorem even_trailingBackslashes_escape (d : Char) (ds : List Char) :
    Even (trailingBackslashes ('\\' :: d :: ds)) ↔ Even (trailingBackslashes ds) := by
  by_cases hd : d = '\\'
  · subst hd
    by_cases hds : ∀ c ∈ ds, c = '\\'
    · rw [trailingBackslashes_all hds, trailingBackslashes_all (by simpa using hds)]
      simp [Nat.even_add_one]
    · have hds' : ¬ ∀ c ∈ '\\' :: ds, c = '\\' := by simpa using hds
      rw [trailingBackslashes_cons_of_mem _ hds', trailingBackslashes_cons_of_mem _ hds]
  · have hds' : ¬ ∀ c ∈ d :: ds, c = '\\' := by simp [hd]
    rw [trailingBackslashes_cons_of_mem _ hds', trailingBackslashes_cons_of_ne hd]

theorem ne_backslash_of_isspace {c : Char} (h : isspace c = true) : c ≠ '\\' := by
  rintro rfl
  exact absurd h (by decide)

/-- White space at the front does not count. -/
theorem trailingBackslashes_dropWhile (cs : List Char) :
    trailingBackslashes (cs.dropWhile isspace) = trailingBackslashes cs := by
  induction cs with
  | nil => rfl
  | cons c cs ih =>
      by_cases hc : isspace c
      · rw [List.dropWhile_cons_of_pos hc, ih, trailingBackslashes_cons_of_ne (ne_backslash_of_isspace hc)]
      · rw [List.dropWhile_cons_of_neg hc]

/-! ## One argument -/

/-- Where the scanner is after one argument that started at `cs` with `out` written. -/
structure ArgumentEnd (cs out c out' : List Char) : Prop where
  /-- Each character written was read. -/
  room : out'.length + c.length ≤ out.length + cs.length
  moved : c = cs ∨ c.length < cs.length
  /-- The scanner stopped at the end or at white space. -/
  stopped : ∀ x ∈ c.head?, isspace x = true
  parity : Even (trailingBackslashes c) ↔ Even (trailingBackslashes cs)

theorem ArgumentEnd.length_le {cs out c out' : List Char} (h : ArgumentEnd cs out c out') :
    c.length ≤ cs.length := by
  rcases h.moved with rfl | hlt
  · exact le_rfl
  · exact hlt.le

theorem ArgumentEnd.cons {x : Char} {cs out out₁ c out' : List Char} (h : ArgumentEnd cs out₁ c out')
    (hx : x ≠ '\\') (hout : out₁.length ≤ out.length + 1) : ArgumentEnd (x :: cs) out c out' where
  room := by
    have := h.room
    simp only [List.length_cons]
    omega
  moved := .inr (Nat.lt_succ_of_le h.length_le)
  stopped := h.stopped
  parity := by rw [trailingBackslashes_cons_of_ne hx, h.parity]

theorem ArgumentEnd.escape {d : Char} {ds out c out' : List Char} (h : ArgumentEnd ds (out ++ [d]) c out') :
    ArgumentEnd ('\\' :: d :: ds) out c out' where
  room := by
    have := h.room
    simp only [List.length_cons, List.length_append, List.length_nil] at this ⊢
    omega
  moved := by
    have := h.length_le
    simp only [List.length_cons]
    omega
  stopped := h.stopped
  parity := by rw [even_trailingBackslashes_escape, h.parity]

/-- The scan of one argument came to its end, or it left the string, which ends in an odd number of backslashes. -/
def ArgumentScanned (cs out : List Char) : Read (List Char × List Char) → Prop
  | .value (c, out') => ArgumentEnd cs out c out'
  | .outOfBounds => ¬ Even (trailingBackslashes cs)

theorem ArgumentScanned.cons {x : Char} {cs out out₁ : List Char} {scanned : Read (List Char × List Char)}
    (h : ArgumentScanned cs out₁ scanned) (hx : x ≠ '\\') (hout : out₁.length ≤ out.length + 1) :
    ArgumentScanned (x :: cs) out scanned := by
  cases scanned with
  | value a => exact ArgumentEnd.cons h hx hout
  | outOfBounds =>
      show ¬ Even _
      rw [trailingBackslashes_cons_of_ne hx]
      exact h

theorem ArgumentScanned.escape {d : Char} {ds out : List Char} {scanned : Read (List Char × List Char)}
    (h : ArgumentScanned ds (out ++ [d]) scanned) : ArgumentScanned ('\\' :: d :: ds) out scanned := by
  cases scanned with
  | value a => exact ArgumentEnd.escape h
  | outOfBounds =>
      show ¬ Even _
      rw [even_trailingBackslashes_escape]
      exact h

theorem scanArgument_spec (quoted : Quoted) (cs out : List Char) :
    ArgumentScanned cs out (scanArgument quoted cs out) := by
  fun_induction scanArgument quoted cs out with
  | case1 => exact ⟨le_rfl, .inl rfl, by simp, Iff.rfl⟩
  | case2 => simp [ArgumentScanned, trailingBackslashes, List.rtakeWhile]
  | case3 quoted out d ds hloop ih => exact ih.escape
  | case4 quoted c cs out hloop hc hclose ih => exact ih.cons hc (by omega)
  | case5 quoted c cs out hloop hc hclose hopen ih => exact ih.cons hc (by omega)
  | case6 quoted c cs out hloop hc hclose hsingle hopen ih => exact ih.cons hc (by omega)
  | case7 quoted c cs out hloop hc hclose hsingle hdouble ih => exact ih.cons hc (by simp)
  | case8 quoted c cs out hstop =>
      have hspace : isspace c = true := by simpa using (not_or.mp hstop).2
      exact ⟨le_rfl, .inl rfl, by simpa using hspace, Iff.rfl⟩

/-! ## The whole string -/

/-- What holds whenever `while(*c)` is tested in the scan of `chars`. -/
structure ScanInside (chars : List Char) (s : ScanState) : Prop where
  /-- Each character written was read, up to the last NUL. -/
  room : s.out.length + s.c.length ≤ chars.length + if s.c = [] then 1 else 0
  started : ∀ x ∈ s.c.head?, isspace x = false
  parity : Even (trailingBackslashes s.c) ↔ Even (trailingBackslashes chars)

theorem head?_dropWhile_isspace (cs : List Char) : ∀ x ∈ (cs.dropWhile isspace).head?, isspace x = false := by
  intro x hx
  have := List.head?_dropWhile_not isspace cs
  rw [Option.mem_def.mp hx] at this
  simpa using this

theorem scanInside_start (chars : List Char) : ScanInside chars ⟨chars.dropWhile isspace, [], 0⟩ where
  room := by
    have := List.length_dropWhile_le isspace chars
    simp only [List.length_nil]
    omega
  started := head?_dropWhile_isspace chars
  parity := by rw [trailingBackslashes_dropWhile]

/-- **A pass keeps inside**, and takes at least one character. -/
theorem scanInside_pass {chars : List Char} {s s' : ScanState} (h : ScanInside chars s) (hp : scanPass s = .again s') :
    ScanInside chars s' ∧ s'.c.length < s.c.length := by
  obtain ⟨c, out, n⟩ := s
  cases c with
  | nil => simp [scanPass] at hp
  | cons x cs =>
      have hspec := scanArgument_spec .unquoted (x :: cs) out
      simp only [scanPass] at hp
      cases hscan : scanArgument .unquoted (x :: cs) out with
      | outOfBounds => rw [hscan] at hp; simp at hp
      | value r =>
          obtain ⟨c, out'⟩ := r
          rw [hscan] at hp hspec
          obtain rfl := Pass.again.inj hp
          replace hspec : ArgumentEnd (x :: cs) out c out' := hspec
          have hdrop := List.length_dropWhile_le isspace c
          have hmoved : c.length < (x :: cs).length := by
            rcases hspec.moved with rfl | hlt
            · have hstart := h.started x rfl
              rw [hspec.stopped x rfl] at hstart
              cases hstart
            · exact hlt
          refine ⟨⟨?_, head?_dropWhile_isspace c, ?_⟩, hdrop.trans_lt hmoved⟩
          · have hroom := h.room
            have hroom' := hspec.room
            simp only [reduceCtorEq, if_false, List.length_append, List.length_cons, List.length_nil] at *
            -- a blank was skipped unless the string ends here
            cases c with
            | nil => simp; omega
            | cons y c =>
                rw [List.dropWhile_cons_of_pos (hspec.stopped y rfl)]
                have := List.length_dropWhile_le isspace c
                simp only [List.length_cons] at *
                omega
          · rw [trailingBackslashes_dropWhile, hspec.parity, h.parity]

/-- The scan of `chars` ended inside its buffers, or it left a string that ends in an odd number of backslashes. -/
def ScannedInside (chars : List Char) : Read (Nat × List Char) → Prop
  | .value (_, out) => out.length ≤ chars.length + 1 ∧ Even (trailingBackslashes chars)
  | .outOfBounds => ¬ Even (trailingBackslashes chars)

theorem scannedInside_leave {chars : List Char} {s : ScanState} {r : Read (Nat × List Char)} (h : ScanInside chars s)
    (hp : scanPass s = .leave r) : ScannedInside chars r := by
  obtain ⟨c, out, n⟩ := s
  cases c with
  | nil =>
      obtain rfl := Pass.leave.inj hp
      exact ⟨by simpa using h.room, h.parity.mp (by simp [trailingBackslashes])⟩
  | cons x cs =>
      have hspec := scanArgument_spec .unquoted (x :: cs) out
      simp only [scanPass] at hp
      cases hscan : scanArgument .unquoted (x :: cs) out with
      | value r => rw [hscan] at hp; simp at hp
      | outOfBounds =>
          rw [hscan] at hp hspec
          obtain rfl := Pass.leave.inj hp
          exact fun heven => hspec (h.parity.mpr heven)

/-- The scanner always ends, and how it ends is decided by the backslashes at the end of the string. -/
theorem parseInternal_spec (chars : List Char) :
    ∃ r, gxFlagsCommandLineParseInternal chars = some r ∧ ScannedInside chars r := by
  have hstart := scanInside_start chars
  have hfuel : (chars.dropWhile isspace).length < chars.length + 1 :=
    Nat.lt_succ_of_le (List.length_dropWhile_le isspace chars)
  obtain ⟨r, hr⟩ := Loop.loopRun_of_variant (ScanInside chars) (fun s => s.c.length)
    (fun s s' h hp => scanInside_pass h hp) hstart hfuel
  have hresult : Loop.Result scanPass ⟨chars.dropWhile isspace, [], 0⟩ r := ⟨_, hr⟩
  exact ⟨r, hr, hresult.invariant (fun s s' h hp => (scanInside_pass h hp).1)
    (fun s b h hp => scannedInside_leave h hp) hstart⟩

/-- `gxFlagsCommandLineParseInternal` ends, reads only the string and its NUL, and fits the working space. -/
def StaysInside (s : CString) : Prop :=
  ∃ n out, gxFlagsCommandLineParseInternal s.chars = some (.value (n, out)) ∧ out.length ≤ s.chars.length + 1

/-- **The scanner stays inside exactly on the strings that do not end in half an escape.** -/
theorem staysInside_iff_even (s : CString) : StaysInside s ↔ Even (trailingBackslashes s.chars) := by
  obtain ⟨r, hr, hspec⟩ := parseInternal_spec s.chars
  constructor
  · rintro ⟨n, out, he, -⟩
    obtain rfl := Option.some.inj (hr.symm.trans he)
    exact hspec.2
  · intro heven
    cases r with
    | value a => exact ⟨a.1, a.2, hr, hspec.1⟩
    | outOfBounds => exact absurd heven hspec

/-- A single backslash is read as an escape of the NUL. -/
theorem not_staysInside_backslash : ¬ ∀ s : CString, StaysInside s := by
  intro h
  have hscan : gxFlagsCommandLineParseInternal ['\\'] = some .outOfBounds := by decide
  obtain ⟨n, out, he, -⟩ := h ⟨['\\'], by decide⟩
  rw [hscan] at he
  simp at he

end GccXml
