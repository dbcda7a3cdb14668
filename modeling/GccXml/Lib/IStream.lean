import GccXml.Lib.CString

namespace GccXml

/-! # `Lib.IStream` — reading lines into a buffer

`std::istream::getline` with a buffer of `n` characters, as the C++ standard has it. The state of the stream decides
how a loop over the lines ends: the end of the file sets `eofbit`, and a line that does not fit into the buffer sets
`failbit`, after which nothing more is read. -/

/-- An input stream: what is still to be read, and its state. -/
structure IStream where
  rest : List Char
  eofbit : Bool := false
  failbit : Bool := false
  deriving DecidableEq

namespace IStream

/-- The state in which an input function reads anything. -/
def good (s : IStream) : Bool := !s.eofbit && !s.failbit

/-- `getline (buf, n)`: the characters stored before the null character, and the stream after it. The end of the file
is looked for before the delimiter, and the delimiter before the end of the buffer. -/
def getline (n : Nat) (s : IStream) : List Char × IStream :=
  let line := s.rest.takeWhile (· ≠ '\n')
  if ¬ s.good then ([], { s with failbit := true })
  else if n ≤ line.length then (s.rest.take (n - 1), { s with rest := s.rest.drop (n - 1), failbit := true })
  else if line.length = s.rest.length then (line, { rest := [], eofbit := true, failbit := line = [] })
  else (line, { s with rest := s.rest.drop (line.length + 1) })

variable {n : Nat}

theorem takeWhile_line {line rest : List Char} (hline : '\n' ∉ line) :
    (line ++ '\n' :: rest).takeWhile (· ≠ '\n') = line := by
  rw [List.takeWhile_append_of_pos]
  · simp
  · intro c hc
    have hne : c ≠ '\n' := by
      rintro rfl
      exact hline hc
    simpa using hne

theorem takeWhile_last {line : List Char} (hline : '\n' ∉ line) : line.takeWhile (· ≠ '\n') = line := by
  rw [List.takeWhile_eq_self_iff]
  intro c hc
  have hne : c ≠ '\n' := by
    rintro rfl
    exact hline hc
  simpa using hne

/-- A line that fits is read together with its newline. -/
theorem getline_line {line rest : List Char} (hline : '\n' ∉ line) (hlen : line.length < n) :
    getline n { rest := line ++ '\n' :: rest } = (line, { rest := rest }) := by
  have hgood : ¬ ¬ good { rest := line ++ '\n' :: rest } := not_not.mpr rfl
  have hnot : line.length ≠ (line ++ '\n' :: rest).length := by
    rw [List.length_append, List.length_cons]
    omega
  have hdrop : (line ++ '\n' :: rest).drop (line.length + 1) = rest := by simp
  unfold getline
  simp only [takeWhile_line hline]
  rw [if_neg hgood, if_neg (by omega), if_neg hnot, hdrop]

/-- A last line without a newline is read, and the end of the file is seen. -/
theorem getline_last {line : List Char} (hline : '\n' ∉ line) (hlen : line.length < n) :
    getline n { rest := line } = (line, { rest := [], eofbit := true, failbit := line = [] }) := by
  have hgood : ¬ ¬ good { rest := line } := not_not.mpr rfl
  unfold getline
  simp only [takeWhile_last hline]
  rw [if_neg hgood, if_neg (by omega), if_pos trivial]

/-- **A line that does not fit** sets `failbit`, and not `eofbit`. -/
theorem getline_overlong {text : List Char} (hlen : n ≤ (text.takeWhile (· ≠ '\n')).length) :
    getline n { rest := text } = (text.take (n - 1), { rest := text.drop (n - 1), failbit := true }) := by
  have hgood : ¬ ¬ good { rest := text } := not_not.mpr rfl
  unfold getline
  rw [if_neg hgood, if_pos hlen]

/-- From a stream that has failed nothing is read, and it stays as it is. -/
theorem getline_failed {s : IStream} (hfail : s.failbit = true) : getline n s = ([], s) := by
  have hbad : ¬ s.good := by simp [good, hfail]
  have hsame : { s with failbit := true } = s := by
    cases s
    cases hfail
    rfl
  unfold getline
  rw [if_pos hbad, hsame]

end IStream

/-! ## The lines of a text -/

/-- The lines that a newline ends, and what stands after the last newline. -/
def splitLast (text : List Char) : List (List Char) × List Char :=
  ((text.splitOn '\n').dropLast, (text.splitOn '\n').getLast?.getD [])

theorem splitOn_line {line : List Char} (hline : '\n' ∉ line) (rest : List Char) :
    (line ++ '\n' :: rest).splitOn '\n' = line :: rest.splitOn '\n' := by
  have hno : ∀ c ∈ line, (c == '\n') = false := by
    intro c hc
    have hne : c ≠ '\n' := by
      rintro rfl
      exact hline hc
    simpa using hne
  rw [List.splitOn, List.splitOnP_append_cons _ _ (by simp), List.splitOnP_eq_singleton hno]
  rfl

theorem splitLast_last {line : List Char} (hline : '\n' ∉ line) : splitLast line = ([], line) := by
  rw [splitLast, List.splitOn_eq_singleton hline]
  rfl

theorem splitLast_line {line : List Char} (hline : '\n' ∉ line) (rest : List Char) :
    splitLast (line ++ '\n' :: rest) = (line :: (splitLast rest).1, (splitLast rest).2) := by
  obtain ⟨first, more, hsplit⟩ := List.exists_cons_of_ne_nil (List.splitOn_ne_nil '\n' rest)
  rw [splitLast, splitOn_line hline, splitLast, hsplit]
  simp

/-- **Line induction.** A text is a last line without a newline, or a line with a newline before a text. -/
theorem line_induction {motive : List Char → Prop} (last : ∀ line, '\n' ∉ line → motive line)
    (cons : ∀ line rest, '\n' ∉ line → motive rest → motive (line ++ '\n' :: rest)) (text : List Char) :
    motive text := by
  induction hlen : text.length using Nat.strong_induction_on generalizing text with
  | _ len ih =>
      by_cases hmem : '\n' ∈ text
      · obtain ⟨line, rest, rfl, hline⟩ := List.eq_append_cons_of_mem hmem
        refine cons line rest hline (ih rest.length ?_ rest rfl)
        rw [← hlen, List.length_append, List.length_cons]
        omega
      · exact last text hmem

end GccXml
