import GccXml.Lib.IStream
import GccXml.Lib.Loop

namespace GccXml

/-! # `VcInstall.PatchScan` — the headers that a patch file lists

`InstallSupport` reads the patch file line by line and copies each header that an `Index:` line names, before it runs
the patch. The loop looks at `eof` only, and at the line after `eof`: what becomes of a line depends on the state that
`getline` leaves.

`Lib.IStream` has the stream: `getline` into a buffer of a fixed size fails when the line does not fit, and the failed
stream never comes to its end, so the loop does not end either. The last line of a file without a newline sets `eof`,
and the loop leaves without looking at it. For one line the body copies what stands behind the first space behind
`Index:`, up to a null character.

What a file lists is stated over its lines (`CopiesListed`), and each departure above gives one clause of the condition
`Scannable`. The theorem goes through the lines. A line that is scanned as it should be adds the copy that it lists,
and the rest of the file decides; a line that is not leaves a copy out or makes a wrong one, or the loop runs on. -/

/-- How the loop over the patch file is left. -/
inductive PatchScanned where
  /-- The end of the file, with the copies made: the source and the destination of each. -/
  | finished (copied : List (List Char × List Char))
  /-- `substr` throws `std::out_of_range`. -/
  | outOfRange
  deriving DecidableEq

/-- The state of the loop: the buffer, the stream and the copies made so far. -/
structure PatchScan where
  buf : List Char
  patch : IStream
  copied : List (List Char × List Char)
  deriving DecidableEq

/-- The text `Index:` that the loop compares the start of a line with. -/
def patchIndex : List Char := ['I', 'n', 'd', 'e', 'x', ':']

/-- `std::string::substr (pos)`; it throws if `pos` is behind the end. -/
def substr (pos : Nat) (s : List Char) : Option (List Char) := if pos ≤ s.length then some (s.drop pos) else none

/-- The arguments of `FileCopy` for the header `name`. -/
def headerCopy (sourcePath destPath name : List Char) : List Char × List Char :=
  (sourcePath ++ '/' :: name, destPath ++ '/' :: name)

section

variable (sourcePath destPath : List Char)

/-- The body of the loop: the copies it makes, unless `substr` throws. -/
def scanPatchLine (buf : List Char) : Option (List (List Char × List Char)) :=
  let line := cString buf
  if line.take 6 = patchIndex then (substr 7 line).map fun name => [headerCopy sourcePath destPath name] else some []

/-- The state after `patch.getline (buf, 4096)`. -/
def patchGetline (patch : IStream) (copied : List (List Char × List Char)) : PatchScan :=
  { buf := (patch.getline 4096).1, patch := (patch.getline 4096).2, copied := copied }

/-- `for(patch.getline(buf, 4096); !patch.eof(); patch.getline(buf, 4096))`. -/
def patchPass (s : PatchScan) : Pass PatchScan PatchScanned :=
  if s.patch.eofbit then .leave (.finished s.copied)
  else
    match scanPatchLine sourcePath destPath s.buf with
    | none => .leave .outOfRange
    | some copies => .again (patchGetline s.patch (s.copied ++ copies))

/-! ## What the file lists -/

/-- The name that follows `Index: ` on a line. -/
def indexedName (line : List Char) : Option (List Char) :=
  if patchIndex ++ [' '] <+: line then some (line.drop 7) else none

/-- The names on the lines of the file that start with `Index:`, in order. -/
def indexedNames (text : List Char) : List (Option (List Char)) :=
  ((text.splitOn '\n').filter fun line => patchIndex <+: line).map indexedName

/-- **Every listed header is copied**: the loop that starts with `copied` comes to its end, and the copies that it
adds are those of the names that the file lists. -/
def CopiesListed (text : List Char) (copied : List (List Char × List Char)) : Prop :=
  ∃ more, Loop.Result (patchPass sourcePath destPath) (patchGetline { rest := text } copied)
      (.finished (copied ++ more)) ∧
    more.map some = (indexedNames text).map (Option.map (headerCopy sourcePath destPath))

end

/-- A line with a newline whose name the loop gets right. -/
def NamesHeader (line : List Char) : Prop := patchIndex <+: line → patchIndex ++ [' '] <+: line ∧ nul ∉ line

/-- The patch files that are scanned as they should be: every line fits into the buffer, every line with a newline that
starts with `Index:` has a space behind it and no null character, and the rest after the last newline does not start
with `Index:`. -/
structure Scannable (text : List Char) : Prop where
  fits : ∀ line ∈ text.splitOn '\n', line.length < 4096
  named : ∀ line ∈ (splitLast text).1, NamesHeader line
  ended : ¬ patchIndex <+: (splitLast text).2

/-! ## One line -/

section

variable {sourcePath destPath : List Char}

theorem patchIndex_prefix_cString {line : List Char} : patchIndex <+: cString line ↔ patchIndex <+: line := by
  constructor
  · intro h
    exact h.trans (List.takeWhile_prefix _)
  · rintro ⟨rest, rfl⟩
    have hno : ∀ c ∈ patchIndex, decide (c ≠ nul) = true := List.all_eq_true.mp (by decide)
    rw [cString, List.takeWhile_append_of_pos hno]
    exact List.prefix_append _ _

theorem take_eq_patchIndex {line : List Char} : line.take 6 = patchIndex ↔ patchIndex <+: line := by
  constructor
  · intro h
    rw [← h]
    exact List.take_prefix 6 line
  · intro h
    exact (List.prefix_iff_eq_take.mp h).symm

theorem headerCopy_injective {name name' : List Char}
    (h : headerCopy sourcePath destPath name = headerCopy sourcePath destPath name') : name = name' := by
  have hsource : sourcePath ++ '/' :: name = sourcePath ++ '/' :: name' := congrArg Prod.fst h
  exact (List.cons.inj (List.append_cancel_left hsource)).2

/-- What a line contributes to the list of names. -/
def lineNames (line : List Char) : List (Option (List Char)) :=
  if patchIndex <+: line then [indexedName line] else []

theorem indexedNames_last {line : List Char} (hline : '\n' ∉ line) : indexedNames line = lineNames line := by
  rw [indexedNames, List.splitOn_eq_singleton hline, lineNames]
  by_cases h : patchIndex <+: line <;> simp [h]

theorem indexedNames_line {line : List Char} (hline : '\n' ∉ line) (rest : List Char) :
    indexedNames (line ++ '\n' :: rest) = lineNames line ++ indexedNames rest := by
  rw [indexedNames, splitOn_line hline, lineNames, indexedNames]
  by_cases h : patchIndex <+: line <;> simp [h]

/-- A line gives at most one copy, and one if it starts with `Index:`. -/
theorem length_scanPatchLine {line : List Char} {copies : List (List Char × List Char)}
    (h : scanPatchLine sourcePath destPath line = some copies) : copies.length = (lineNames line).length := by
  unfold scanPatchLine at h
  simp only [take_eq_patchIndex, patchIndex_prefix_cString] at h
  unfold lineNames
  by_cases hindex : patchIndex <+: line
  · rw [if_pos hindex, Option.map_eq_some_iff] at h
    obtain ⟨name, -, rfl⟩ := h
    rw [if_pos hindex]
    rfl
  · rw [if_neg hindex] at h
    cases h
    rw [if_neg hindex]
    rfl

theorem cString_eq_of_drop {line : List Char} (hlen : 7 ≤ (cString line).length)
    (hdrop : (cString line).drop 7 = line.drop 7) : cString line = line := by
  have hprefix : cString line <+: line := List.takeWhile_prefix _
  have hle : (cString line).length ≤ line.length := hprefix.length_le
  have heq : (cString line).length - 7 = line.length - 7 := by
    rw [← List.length_drop, hdrop, List.length_drop]
  exact hprefix.eq_of_length (by omega)

/-- **One line.** The body copies the header that the line names, if and only if there is a space behind `Index:` and
no null character in the line. -/
theorem scanPatchLine_iff {line : List Char} :
    (∃ copies, scanPatchLine sourcePath destPath line = some copies ∧
        copies.map some = (lineNames line).map (Option.map (headerCopy sourcePath destPath))) ↔
      NamesHeader line := by
  unfold scanPatchLine lineNames NamesHeader
  simp only [take_eq_patchIndex, patchIndex_prefix_cString]
  by_cases hindex : patchIndex <+: line
  · simp only [hindex, true_imp_iff, if_true]
    constructor
    · rintro ⟨copies, hcopies, hnames⟩
      obtain ⟨name, hname, rfl⟩ := Option.map_eq_some_iff.mp hcopies
      -- `substr(7)` throws on a shorter line, so the text before a NUL has seven characters
      have hlen : 7 ≤ (cString line).length := by
        by_contra hlt
        rw [substr, if_neg hlt] at hname
        cases hname
      rw [substr, if_pos hlen, Option.some.injEq] at hname
      subst hname
      unfold indexedName at hnames
      by_cases hspace : patchIndex ++ [' '] <+: line
      · rw [if_pos hspace] at hnames
        have hcopy := Option.some.inj (List.cons.inj hnames).1
        have hself := cString_eq_of_drop hlen (headerCopy_injective hcopy)
        exact ⟨hspace, hself ▸ nul_notMem_cString line⟩
      · rw [if_neg hspace] at hnames
        cases hnames
    · rintro ⟨hspace, hnul⟩
      have hlen : 7 ≤ line.length := hspace.length_le
      refine ⟨[headerCopy sourcePath destPath (line.drop 7)], ?_, ?_⟩
      · rw [cString_eq_self hnul, substr, if_pos hlen]
        rfl
      · rw [indexedName, if_pos hspace]
        rfl
  · simp [hindex]

/-! ## The loop -/

/-- The copies made before are kept. -/
theorem result_extends {s : PatchScan} {copied : List (List Char × List Char)}
    (h : Loop.Result (patchPass sourcePath destPath) s (.finished copied)) : ∃ more, copied = s.copied ++ more := by
  -- a pass adds to what is copied and takes nothing back
  have hpass : ∀ t t', (∃ more, t.copied = s.copied ++ more) → patchPass sourcePath destPath t = .again t' →
      ∃ more, t'.copied = s.copied ++ more := by
    rintro t t' ⟨more, hmore⟩ hagain
    unfold patchPass at hagain
    split at hagain
    · cases hagain
    · split at hagain
      · cases hagain
      · next copies _ =>
          cases hagain
          exact ⟨more ++ copies, by simp [patchGetline, hmore]⟩
  have hleave : ∀ t b, (∃ more, t.copied = s.copied ++ more) → patchPass sourcePath destPath t = .leave b →
      ∀ copied, b = .finished copied → ∃ more, copied = s.copied ++ more := by
    rintro t b ⟨more, hmore⟩ hend copied rfl
    unfold patchPass at hend
    split at hend
    · cases hend
      exact ⟨more, hmore⟩
    · split at hend <;> cases hend
  exact h.invariant hpass hleave ⟨[], by simp⟩ copied rfl

/-- From a stream that has failed before the end of the file, the loop reads empty lines without end. -/
theorem not_ends_of_failed {s : PatchScan} (hbuf : s.buf = []) (hfail : s.patch.failbit = true)
    (heof : s.patch.eofbit = false) : ¬ Loop.Ends (patchPass sourcePath destPath) s := by
  have hstuck : ∀ t : PatchScan, (t.buf = [] ∧ t.patch.failbit = true ∧ t.patch.eofbit = false) →
      ∃ t', patchPass sourcePath destPath t = .again t' ∧
        (t'.buf = [] ∧ t'.patch.failbit = true ∧ t'.patch.eofbit = false) := by
    rintro t ⟨hbuf, hfail, heof⟩
    have hline : scanPatchLine sourcePath destPath t.buf = some [] := by
      rw [hbuf]
      rfl
    refine ⟨patchGetline t.patch (t.copied ++ []), ?_, ?_⟩
    · unfold patchPass
      rw [heof, hline]
      rfl
    · unfold patchGetline
      rw [IStream.getline_failed hfail]
      exact ⟨rfl, hfail, heof⟩
  exact Loop.not_ends_of_stuck hstuck .refl ⟨hbuf, hfail, heof⟩

/-- A line that does not fit keeps the loop from its end. -/
theorem not_finished_of_overlong {text : List Char} {copied result : List (List Char × List Char)}
    (hlen : 4096 ≤ (text.takeWhile (· ≠ '\n')).length) :
    ¬ Loop.Result (patchPass sourcePath destPath) (patchGetline { rest := text } copied) (.finished result) := by
  intro h
  rw [patchGetline, IStream.getline_overlong hlen] at h
  cases hline : scanPatchLine sourcePath destPath (text.take (4096 - 1)) with
  | none =>
      have hleave : patchPass sourcePath destPath
          { buf := text.take (4096 - 1), patch := { rest := text.drop (4096 - 1), failbit := true },
            copied := copied } = .leave .outOfRange := by
        simp [patchPass, hline]
      cases h.unique (.of_leave hleave)
  | some copies =>
      refine not_ends_of_failed ?_ ?_ ?_ ⟨_, h.again (by simp only [patchPass, hline]; rfl)⟩
      · rw [patchGetline, IStream.getline_failed rfl]
      · rw [patchGetline, IStream.getline_failed rfl]
      · rw [patchGetline, IStream.getline_failed rfl]

/-- The last line, without a newline, is not looked at. -/
theorem copiesListed_last {line : List Char} (hline : '\n' ∉ line) (copied : List (List Char × List Char)) :
    CopiesListed sourcePath destPath line copied ↔ line.length < 4096 ∧ ¬ patchIndex <+: line := by
  unfold CopiesListed
  by_cases hlen : line.length < 4096
  · have hleave : patchPass sourcePath destPath (patchGetline { rest := line } copied) = .leave (.finished copied) := by
      rw [patchGetline, IStream.getline_last hline hlen]
      rfl
    have hend := Loop.Result.of_leave hleave
    rw [indexedNames_last hline, lineNames]
    constructor
    · rintro ⟨more, hresult, hnames⟩
      -- the loop ends after this line and copies nothing for it
      have hmore : more = [] := by
        have hsame := PatchScanned.finished.inj (hresult.unique hend)
        simpa using hsame
      refine ⟨hlen, fun hindex => ?_⟩
      rw [hmore, if_pos hindex] at hnames
      cases hnames
    · rintro ⟨-, hindex⟩
      refine ⟨[], ?_, ?_⟩
      · rw [List.append_nil]
        exact hend
      · rw [if_neg hindex]
        rfl
  · have hover : 4096 ≤ (line.takeWhile (· ≠ '\n')).length := by
      rw [IStream.takeWhile_last hline]
      omega
    refine iff_of_false ?_ fun h => hlen h.1
    rintro ⟨more, hresult, -⟩
    exact not_finished_of_overlong hover hresult

/-- A line with a newline, in front of the rest of the file. -/
theorem copiesListed_line {line : List Char} (hline : '\n' ∉ line) (rest : List Char)
    (copied : List (List Char × List Char)) :
    CopiesListed sourcePath destPath (line ++ '\n' :: rest) copied ↔
      line.length < 4096 ∧ ∃ copies, scanPatchLine sourcePath destPath line = some copies ∧
        copies.map some = (lineNames line).map (Option.map (headerCopy sourcePath destPath)) ∧
        CopiesListed sourcePath destPath rest (copied ++ copies) := by
  by_cases hlen : line.length < 4096
  · have hread : patchGetline { rest := line ++ '\n' :: rest } copied =
        { buf := line, patch := { rest := rest }, copied := copied } := by
      rw [patchGetline, IStream.getline_line hline hlen]
    unfold CopiesListed
    rw [hread, indexedNames_line hline, List.map_append]
    cases hcopies : scanPatchLine sourcePath destPath line with
    | none =>
        have hleave : patchPass sourcePath destPath
            { buf := line, patch := { rest := rest }, copied := copied } = .leave .outOfRange := by
          simp [patchPass, hcopies]
        refine iff_of_false ?_ fun h => by simp at h
        -- `substr` throws on this line, and no list is reached
        rintro ⟨more, hresult, -⟩
        cases hresult.unique (.of_leave hleave)
    | some copies =>
        have hagain : patchPass sourcePath destPath { buf := line, patch := { rest := rest }, copied := copied } =
            .again (patchGetline { rest := rest } (copied ++ copies)) := by
          simp [patchPass, hcopies]
        have hlength := length_scanPatchLine hcopies
        constructor
        · rintro ⟨more, hresult, hnames⟩
          have hrest := hresult.again hagain
          obtain ⟨after, hafter⟩ := result_extends hrest
          have hmore : more = copies ++ after := by
            have hcopied : copied ++ more = copied ++ copies ++ after := hafter
            rw [List.append_assoc] at hcopied
            exact List.append_cancel_left hcopied
          rw [hmore, List.map_append] at hnames
          -- this line names as many headers as it copies, so the two lists split at one place
          obtain ⟨hfirst, hafters⟩ := List.append_inj hnames (by simpa using hlength)
          refine ⟨hlen, copies, rfl, hfirst, after, ?_, hafters⟩
          rw [List.append_assoc, ← hmore]
          exact hrest
        · rintro ⟨-, copies', hsame, hfirst, after, hresult, hafters⟩
          obtain rfl := Option.some.inj hsame
          refine ⟨copies ++ after, ?_, ?_⟩
          · rw [← List.append_assoc]
            exact hresult.of_again hagain
          · rw [List.map_append, hfirst, hafters]
  · have hover : 4096 ≤ ((line ++ '\n' :: rest).takeWhile (· ≠ '\n')).length := by
      rw [IStream.takeWhile_line hline]
      omega
    refine iff_of_false ?_ fun h => hlen h.1
    rintro ⟨more, hresult, -⟩
    exact not_finished_of_overlong hover hresult

theorem scannable_last {line : List Char} (hline : '\n' ∉ line) :
    Scannable line ↔ line.length < 4096 ∧ ¬ patchIndex <+: line := by
  have hsplit : line.splitOn '\n' = [line] := List.splitOn_eq_singleton hline
  have hlast := splitLast_last hline
  constructor
  · intro h
    refine ⟨h.fits line (by simp [hsplit]), ?_⟩
    have hended := h.ended
    rwa [hlast] at hended
  · rintro ⟨hlen, hindex⟩
    refine ⟨?_, ?_, ?_⟩
    · rw [hsplit]
      simpa using hlen
    · rw [hlast]
      simp
    · rw [hlast]
      exact hindex

theorem scannable_line {line : List Char} (hline : '\n' ∉ line) (rest : List Char) :
    Scannable (line ++ '\n' :: rest) ↔ line.length < 4096 ∧ NamesHeader line ∧ Scannable rest := by
  have hsplit := splitOn_line hline rest
  have hlast := splitLast_line hline rest
  constructor
  · rintro ⟨hfits, hnamed, hended⟩
    rw [hsplit, List.forall_mem_cons] at hfits
    rw [hlast, List.forall_mem_cons] at hnamed
    rw [hlast] at hended
    exact ⟨hfits.1, hnamed.1, hfits.2, hnamed.2, hended⟩
  · rintro ⟨hlen, hline, hfits, hnamed, hended⟩
    refine ⟨?_, ?_, ?_⟩
    · rw [hsplit, List.forall_mem_cons]
      exact ⟨hlen, hfits⟩
    · rw [hlast, List.forall_mem_cons]
      exact ⟨hline, hnamed⟩
    · rw [hlast]
      exact hended

/-- The loop over a patch file, with copies made before. -/
theorem copiesListed_iff (text : List Char) (copied : List (List Char × List Char)) :
    CopiesListed sourcePath destPath text copied ↔ Scannable text := by
  induction text using line_induction generalizing copied with
  | last line hline => rw [copiesListed_last hline, scannable_last hline]
  | cons line rest hline ih =>
      rw [copiesListed_line hline, scannable_line hline, ← @scanPatchLine_iff sourcePath destPath]
      constructor
      · rintro ⟨hlen, copies, hcopies, hnames, hrest⟩
        exact ⟨hlen, ⟨copies, hcopies, hnames⟩, (ih _).mp hrest⟩
      · rintro ⟨hlen, ⟨copies, hcopies, hnames⟩, hrest⟩
        exact ⟨hlen, copies, hcopies, hnames, (ih _).mpr hrest⟩

/-- **When the listed headers are copied.** The loop over the patch file comes to its end and copies the headers that
the `Index:` lines of the file name, one for each of these lines and in order, if and only if the file can be scanned:
every line fits into the buffer, each of these lines has a newline, a space behind `Index:` and no null character. -/
theorem scan_copies_iff (sourcePath destPath text : List Char) :
    CopiesListed sourcePath destPath text [] ↔ Scannable text := copiesListed_iff text []

end

/-! ### A last line without a newline -/

/-- The header on the last line is not copied when no newline follows it. -/
theorem not_copiesListed_last : ¬ CopiesListed [] [] ['I', 'n', 'd', 'e', 'x', ':', ' ', 'a'] [] := by
  rintro ⟨more, hresult, hnames⟩
  have hend : Loop.Result (patchPass [] []) (patchGetline { rest := ['I', 'n', 'd', 'e', 'x', ':', ' ', 'a'] } [])
      (.finished []) := ⟨1, by decide⟩
  obtain rfl : more = [] := PatchScanned.finished.inj (hresult.unique hend)
  revert hnames
  decide

end GccXml
