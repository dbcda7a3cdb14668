import GccXml.Lib.Loop
import GccXml.Lib.CString
import Mathlib.Data.List.DropRight

namespace GccXml

/-! # `Front.RunCommand` — capturing what a command prints

The POSIX branch of `gxSystemTools::RunCommand` reads a pipe with `fgets` and appends a buffer to the output only if
the read that filled it did not also meet the end of the file.

So what is lost is decided by the last read. A read takes a line or fills the buffer, and it meets the end only within
a line that has no newline and does not fill the room that is left (`LineRead`). `leftOver` is what remains of the last
line when reads of 4095 characters are taken from it, which does not change when a full read is taken from the front.

`Capturing` is the invariant of the loop, stated for the moment at which `feof` is tested: while the end was not met,
the output and the buffer hold all that was read; once it was met, the output holds all but what was left over. The
loop ends because every read takes something or meets the end. The exit status is told apart from the status of
`waitpid`, in which a signal looks like success. -/

/-! ## The stream -/

/-- A stream opened for reading: what is still to be read and the end-of-file indicator. -/
structure Stream where
  rest : List Char
  eof : Bool := false
  deriving DecidableEq

/-- `fgetc`; a read at the end sets the indicator. -/
def fgetc (s : Stream) : Option Char × Stream :=
  if s.eof then (none, s)
  else
    match s.rest with
    | [] => (none, { s with eof := true })
    | c :: cs => (some c, { s with rest := cs })

/-- The reads of `fgets`: up to `n` characters, none after a newline. -/
def fgetsLoop : Nat → Stream → List Char × Stream
  | 0, s => ([], s)
  | n + 1, s =>
      match fgetc s with
      | (none, s) => ([], s)
      | (some c, s) =>
          if c = '\n' then ([c], s)
          else
            let (cs, s) := fgetsLoop n s
            (c :: cs, s)

/-- `fgets`: the buffer afterwards, which is left unchanged if nothing was read. -/
def fgets (buffer : List Char) (size : Nat) (s : Stream) : List Char × Stream :=
  let (read, s) := fgetsLoop (size - 1) s
  if read = [] then (buffer, s) else (read, s)

/-! ## The child process -/

/-- How a process ended. -/
inductive Termination where
  | exited (code : Fin 256)
  | signaled (signal : Fin 128) (core : Bool)
  deriving DecidableEq

/-- The status that `pclose` gives for a process that ended so. -/
def waitStatus : Termination → Nat
  | .exited code => code.val <<< 8
  | .signaled signal core => signal.val + if core then 0x80 else 0

/-- `WEXITSTATUS`. -/
def WEXITSTATUS (status : Nat) : Nat := (status &&& 0xff00) >>> 8

/-- A child process of `popen`: what it writes to the pipe, and how it ends. -/
structure ChildProcess where
  text : List Char
  noNul : nul ∉ text
  termination : Termination

/-! ## `RunCommand` -/

/-- `BUFFER_SIZE`. -/
def bufferSize : Nat := 4096

/-- The buffer, the pipe and the output. -/
structure CaptureState where
  buffer : List Char
  cpipe : Stream
  output : List Char
  deriving DecidableEq

/-- `fgets(buffer, BUFFER_SIZE, cpipe)`. -/
def CaptureState.fill (s : CaptureState) : CaptureState :=
  let (buffer, cpipe) := fgets s.buffer bufferSize s.cpipe
  { s with buffer := buffer, cpipe := cpipe }

/-- One pass of `while(!feof(cpipe))`. -/
def capturePass (s : CaptureState) : Pass CaptureState (List Char) :=
  if s.cpipe.eof then .leave s.output
  else .again { s with output := s.output ++ cString s.buffer }.fill

/-- `RunCommand`: whether it succeeds, the output and `retVal`. `buffer` is what the local array holds at first, and
no child stands for a `popen` that fails. -/
def runCommand (buffer : List Char) (child : Option ChildProcess) (output : List Char) (retVal : Nat) :
    Option (Bool × List Char × Nat) :=
  match child with
  | none => some (false, output, retVal)
  | some child =>
      (loopRun capturePass (child.text.length + 2) (CaptureState.fill ⟨buffer, ⟨child.text, false⟩, output⟩)).map
        fun output =>
          let retVal := WEXITSTATUS (waitStatus child.termination)
          (decide (retVal = 0), output, retVal)

/-! ## The last line -/

/-- What follows the last newline of a text. -/
def lastLine (text : List Char) : List Char := text.rtakeWhile (· ≠ '\n')

theorem lastLine_eq_self {text : List Char} (h : '\n' ∉ text) : lastLine text = text := by
  rw [lastLine, List.rtakeWhile_eq_self_iff]
  intro c hc
  simp only [decide_eq_true_eq]
  rintro rfl
  exact h hc

theorem lastLine_append_newline (line text : List Char) : lastLine (line ++ '\n' :: text) = lastLine text := by
  simp only [lastLine, List.rtakeWhile, List.reverse_append, List.reverse_cons, List.append_assoc,
    List.takeWhile_append]
  by_cases h : (text.reverse.takeWhile (· ≠ '\n')).length = text.reverse.length
  · have hself := (List.takeWhile_prefix _).eq_of_length h
    rw [if_pos h, hself]
    simp
  · rw [if_neg h]

/-- How much of a last line does not fill a whole number of reads of `n` characters. -/
def leftOver (n : Nat) (text : List Char) : Nat := (lastLine text).length % n

/-- Full reads from the last line do not change what is left over. -/
theorem leftOver_append {n : Nat} {read : List Char} (hfull : read.length = n) (hline : '\n' ∉ read)
    (rest : List Char) : leftOver n (read ++ rest) = leftOver n rest := by
  by_cases h : '\n' ∈ rest
  · obtain ⟨line, tail, rfl⟩ := List.append_of_mem h
    rw [leftOver, leftOver, ← List.append_assoc, lastLine_append_newline, lastLine_append_newline]
  · rw [leftOver, leftOver, lastLine_eq_self (by simp [hline, h]), lastLine_eq_self h, List.length_append, hfull,
      Nat.add_mod_left]

/-! ## One read -/

/-- What one `fgets` with room for `n` characters reads from `text`. -/
structure LineRead (n : Nat) (text read : List Char) (s : Stream) : Prop where
  split : read ++ s.rest = text
  /-- If the read meets the end, it does so within a line, with room left. -/
  ended : s.eof = true → s.rest = [] ∧ read.length < n ∧ '\n' ∉ read
  /-- Otherwise it reads to the end of a line or fills the buffer. -/
  goesOn : s.eof = false → (∃ line, read = line ++ ['\n']) ∨ read.length = n ∧ '\n' ∉ read

theorem fgetsLoop_spec (n : Nat) (text : List Char) :
    LineRead n text (fgetsLoop n ⟨text, false⟩).1 (fgetsLoop n ⟨text, false⟩).2 := by
  induction n generalizing text with
  | zero => exact ⟨rfl, by simp [fgetsLoop], fun _ => .inr (by simp [fgetsLoop])⟩
  | succ n ih =>
      cases text with
      | nil => exact ⟨rfl, fun _ => by simp [fgetsLoop, fgetc], by simp [fgetsLoop, fgetc]⟩
      | cons c text =>
          by_cases hc : c = '\n'
          · have hloop : fgetsLoop (n + 1) ⟨c :: text, false⟩ = ([c], ⟨text, false⟩) := by simp [fgetsLoop, fgetc, hc]
            rw [hloop]
            exact ⟨rfl, by simp, fun _ => .inl ⟨[], by simp [hc]⟩⟩
          · obtain ⟨hsplit, hended, hgoesOn⟩ := ih text
            have hloop : fgetsLoop (n + 1) ⟨c :: text, false⟩
                = (c :: (fgetsLoop n ⟨text, false⟩).1, (fgetsLoop n ⟨text, false⟩).2) := by
              simp [fgetsLoop, fgetc, hc]
            rw [hloop]
            refine ⟨by rw [List.cons_append, hsplit], fun heof => ?_, fun heof => ?_⟩
            · obtain ⟨hrest, hroom, hline⟩ := hended heof
              exact ⟨hrest, Nat.succ_lt_succ hroom, by simpa using ⟨Ne.symm hc, hline⟩⟩
            · rcases hgoesOn heof with ⟨line, hread⟩ | ⟨hfull, hline⟩
              · exact .inl ⟨c :: line, by rw [hread, List.cons_append]⟩
              · exact .inr ⟨by rw [List.length_cons, hfull], by simpa using ⟨Ne.symm hc, hline⟩⟩

/-! ## The loop -/

/-- What holds whenever `feof` is tested in the capture of `text`, appended to `output`. -/
structure Capturing (text output : List Char) (s : CaptureState) : Prop where
  /-- While the end has not been met, the output and the buffer hold all that was read. -/
  goesOn : s.cpipe.eof = false → ∃ captured, text = captured ++ (s.buffer ++ s.cpipe.rest) ∧
    s.output = output ++ captured ∧ leftOver (bufferSize - 1) s.cpipe.rest = leftOver (bufferSize - 1) text
  /-- At the end the output holds all but what was left over. -/
  ended : s.cpipe.eof = true → s.output = output ++ text.rdrop (leftOver (bufferSize - 1) text)

/-- A bound on the reads that are still to come. -/
def readsLeft (s : CaptureState) : Nat := if s.cpipe.eof then 0 else s.cpipe.rest.length + 1

theorem LineRead.leftOver_rest {n : Nat} {text read : List Char} {s : Stream} (h : LineRead n text read s)
    (heof : s.eof = false) : leftOver n s.rest = leftOver n text := by
  rw [← h.split]
  rcases h.goesOn heof with ⟨line, hread⟩ | ⟨hfull, hline⟩
  · rw [hread, List.append_assoc, leftOver, leftOver]
    exact congrArg (fun l => l.length % n) (lastLine_append_newline line s.rest).symm
  · exact (leftOver_append hfull hline s.rest).symm

theorem LineRead.leftOver_text {n : Nat} {text read : List Char} {s : Stream} (h : LineRead n text read s)
    (heof : s.eof = true) : leftOver n text = text.length := by
  obtain ⟨hrest, hroom, hline⟩ := h.ended heof
  have htext : read = text := by rw [← h.split, hrest, List.append_nil]
  rw [← htext, leftOver, lastLine_eq_self hline, Nat.mod_eq_of_lt hroom]

theorem LineRead.read_ne_nil {n : Nat} {text read : List Char} {s : Stream} (h : LineRead n text read s)
    (hn : 0 < n) (heof : s.eof = false) : read ≠ [] := by
  rcases h.goesOn heof with ⟨line, hread⟩ | ⟨hfull, -⟩
  · simp [hread]
  · exact List.ne_nil_of_length_pos (by omega)

theorem rdrop_append_length (xs ys : List Char) : (xs ++ ys).rdrop ys.length = xs := by
  simp [List.rdrop]

/-- **A read keeps the invariant**, and it takes something or meets the end. -/
theorem capturing_fill (output captured buffer rest : List Char)
    (hleft : leftOver (bufferSize - 1) rest = leftOver (bufferSize - 1) (captured ++ rest)) :
    Capturing (captured ++ rest) output (CaptureState.fill ⟨buffer, ⟨rest, false⟩, output ++ captured⟩)
      ∧ readsLeft (CaptureState.fill ⟨buffer, ⟨rest, false⟩, output ++ captured⟩) < rest.length + 1 := by
  have hread := fgetsLoop_spec (bufferSize - 1) rest
  have hfill : CaptureState.fill ⟨buffer, ⟨rest, false⟩, output ++ captured⟩
      = ⟨(fgets buffer bufferSize ⟨rest, false⟩).1, (fgets buffer bufferSize ⟨rest, false⟩).2, output ++ captured⟩ := rfl
  rw [hfill, fgets]
  generalize fgetsLoop (bufferSize - 1) ⟨rest, false⟩ = r at hread
  obtain ⟨read, s⟩ := r
  cases heof : s.eof with
  | true =>
      have hlost : leftOver (bufferSize - 1) (captured ++ rest) = rest.length :=
        hleft.symm.trans (hread.leftOver_text heof)
      -- the buffer is not looked at again
      have hstream : ∀ b, (if read = [] then (b, s) else (read, s)).2 = s := by intro b; split <;> rfl
      refine ⟨⟨fun h => ?_, fun _ => ?_⟩, ?_⟩
      · simp only [hstream, heof] at h
        cases h
      · rw [hlost, rdrop_append_length]
      · simp only [readsLeft, hstream, heof, if_true]
        omega
  | false =>
      have hne : read ≠ [] := hread.read_ne_nil (by decide) heof
      simp only [if_neg hne]
      refine ⟨⟨fun _ => ⟨captured, ?_, rfl, (hread.leftOver_rest heof).trans hleft⟩, fun h => ?_⟩, ?_⟩
      · rw [hread.split]
      · rw [heof] at h
        cases h
      · have hlen := congrArg List.length hread.split
        have hpos := List.length_pos_of_ne_nil hne
        simp only [List.length_append] at hlen
        simp only [readsLeft, heof, Bool.false_eq_true, if_false]
        omega

theorem capturing_pass {text output : List Char} (hnul : nul ∉ text) {s s' : CaptureState}
    (h : Capturing text output s) (hp : capturePass s = .again s') :
    Capturing text output s' ∧ readsLeft s' < readsLeft s := by
  obtain ⟨buffer, ⟨rest, eof⟩, out⟩ := s
  cases eof with
  | true => simp [capturePass] at hp
  | false =>
      obtain ⟨captured, rfl, rfl, hleft⟩ := h.goesOn rfl
      have hbuffer : nul ∉ buffer := fun hmem => hnul (by simp [hmem])
      have hstate : CaptureState.fill ⟨buffer, ⟨rest, false⟩, output ++ (captured ++ buffer)⟩ = s' := by
        simpa [capturePass, cString_eq_self hbuffer] using hp
      have hassoc : captured ++ (buffer ++ rest) = (captured ++ buffer) ++ rest := (List.append_assoc ..).symm
      have hfill := capturing_fill output (captured ++ buffer) buffer rest (by rw [← hassoc]; exact hleft)
      rw [hstate, ← hassoc] at hfill
      exact hfill

/-- **The loop of `RunCommand` ends**, with all of the text but what is left over of its last line. -/
theorem runCommand_eq (buffer : List Char) (child : ChildProcess) (output : List Char) (retVal : Nat) :
    runCommand buffer (some child) output retVal =
      some (decide (WEXITSTATUS (waitStatus child.termination) = 0),
        output ++ child.text.rdrop (leftOver (bufferSize - 1) child.text),
        WEXITSTATUS (waitStatus child.termination)) := by
  obtain ⟨hstart, hreads⟩ := capturing_fill output [] buffer child.text rfl
  rw [List.append_nil, List.nil_append] at hstart
  rw [List.append_nil] at hreads
  obtain ⟨out, hout⟩ := Loop.loopRun_of_variant (Capturing child.text output) readsLeft
    (fun s s' h hp => capturing_pass child.noNul h hp) hstart (Nat.lt_succ_of_lt hreads)
  have hresult : Loop.Result capturePass _ out := ⟨_, hout⟩
  have hcaptured : out = output ++ child.text.rdrop (leftOver (bufferSize - 1) child.text) := by
    have hleave : ∀ s b, Capturing child.text output s → capturePass s = .leave b →
        b = output ++ child.text.rdrop (leftOver (bufferSize - 1) child.text) := by
      intro s b h hp
      cases heof : s.cpipe.eof with
      | false => simp [capturePass, heof] at hp
      | true =>
          rw [capturePass, if_pos heof] at hp
          rw [← Pass.leave.inj hp]
          exact h.ended heof
    exact hresult.invariant (fun s s' h hp => (capturing_pass child.noNul h hp).1) hleave hstart
  rw [runCommand]
  simp only [hout, Option.map_some, hcaptured]

/-! ## The exit status -/

theorem WEXITSTATUS_exited (code : Fin 256) : WEXITSTATUS (waitStatus (.exited code)) = code.val := by
  have hmask : (0xff00 : Nat) >>> 8 = 2 ^ 8 - 1 := by decide
  rw [WEXITSTATUS, waitStatus, Nat.shiftRight_and_distrib, Nat.shiftLeft_shiftRight, hmask,
    Nat.and_two_pow_sub_one_eq_mod]
  exact Nat.mod_eq_of_lt code.isLt

/-- A process that a signal ended has no exit status, and `WEXITSTATUS` gives zero for it. -/
theorem WEXITSTATUS_signaled (signal : Fin 128) (core : Bool) :
    WEXITSTATUS (waitStatus (.signaled signal core)) = 0 := by
  have hsmall : waitStatus (.signaled signal core) < 2 ^ 8 := by
    have := signal.isLt
    cases core <;> simp only [waitStatus] <;> simp <;> omega
  rw [WEXITSTATUS, Nat.shiftRight_and_distrib, Nat.shiftRight_eq_div_pow, Nat.div_eq_of_lt hsmall, Nat.zero_and]

/-- `RunCommand` appends all that the child writes and succeeds exactly when its exit status is zero. -/
def CapturesEverything (buffer : List Char) (child : ChildProcess) (output : List Char) (retVal : Nat) : Prop :=
  ∃ retVal', runCommand buffer (some child) output retVal
    = some (decide (child.termination = .exited 0), output ++ child.text, retVal')

theorem leftOver_le (n : Nat) (text : List Char) : leftOver n text ≤ text.length :=
  (Nat.mod_le _ _).trans (List.rtakeWhile_suffix _ _).length_le

theorem rdrop_leftOver_eq_self {n : Nat} {text : List Char} :
    text.rdrop (leftOver n text) = text ↔ n ∣ (lastLine text).length := by
  rw [Nat.dvd_iff_mod_eq_zero]
  have hle := leftOver_le n text
  constructor
  · intro h
    have hlen := congrArg List.length h
    rw [List.rdrop, List.length_take] at hlen
    show leftOver n text = 0
    omega
  · intro h
    rw [leftOver, h, List.rdrop_zero]

/-- `RunCommand` succeeds exactly when the exit status is zero, if there is one. -/
theorem succeeds_iff (termination : Termination) :
    decide (WEXITSTATUS (waitStatus termination) = 0) = decide (termination = .exited 0)
      ↔ ∀ signal core, termination ≠ .signaled signal core := by
  cases termination with
  | exited code =>
      rw [WEXITSTATUS_exited]
      have hcode : code.val = 0 ↔ code = 0 := ⟨fun h => Fin.ext h, fun h => h ▸ rfl⟩
      simp [hcode]
  | signaled signal core => simp [WEXITSTATUS_signaled]

/-- **`RunCommand` captures everything exactly when nothing is left over of the last line**, provided that no
signal ended the child. -/
theorem capturesEverything_iff (buffer : List Char) (child : ChildProcess) (output : List Char) (retVal : Nat) :
    CapturesEverything buffer child output retVal ↔
      (bufferSize - 1) ∣ (lastLine child.text).length ∧
        ∀ signal core, child.termination ≠ .signaled signal core := by
  rw [CapturesEverything, runCommand_eq, ← rdrop_leftOver_eq_self, ← succeeds_iff]
  constructor
  · rintro ⟨retVal', h⟩
    obtain ⟨hok, hout, -⟩ := by simpa only [Option.some.injEq, Prod.mk.injEq] using h
    exact ⟨List.append_cancel_left hout, hok⟩
  · rintro ⟨hout, hok⟩
    exact ⟨_, by rw [hout, hok]⟩

/-- The output of a command that prints one line without a newline is lost. -/
theorem not_capturesEverything_partialLine : ¬ ∀ buffer child output retVal,
    CapturesEverything buffer child output retVal := by
  intro h
  have hrun : runCommand [] (some ⟨['g', 'c', 'c'], by decide, .exited 0⟩) [] 0 = some (true, [], 0) := by
    rw [runCommand_eq]
    decide
  obtain ⟨retVal', he⟩ := h [] ⟨['g', 'c', 'c'], by decide, .exited 0⟩ [] 0
  rw [hrun] at he
  simp at he

end GccXml
