import GccXml.Lib.Loop
import GccXml.Libiberty.Md5Pieces

namespace GccXml

/-! # `Libiberty.Md5Stream` — the checksum of a stream

`md5_stream` reads blocks of 4096 bytes. A block is read in as many parts as `fread` gives it in, and the last one,
which is not complete, is a piece for `md5_process_bytes`.

A stream is what is left to be read, in the parts in which it will be given, and an error that may come at its end. The
inner loop fills a block (`readBlock_spec`), and the outer one absorbs blocks (`streamPass_spec`); the context stands
for all that was absorbed, in the sense of `Libiberty.Md5Pieces`, so both are invariants about the text that was read.
Complete blocks go to `md5_process_block`, by which nothing slips, which leaves the last one: whether it slips is
decided by its address and by what the host can read from there. -/

namespace Md5

/-- A `FILE` that is read: the parts that it still gives, and whether it ends with an error. -/
structure Stream where
  parts : List (List UInt8)
  error : Bool

/-- `fread`, of at most `n` bytes. -/
def fread (n : Nat) (stream : Stream) : List UInt8 × Stream :=
  match stream.parts with
  | [] => ([], stream)
  | part :: parts =>
      if part.length ≤ n then (part, { stream with parts })
      else (part.take n, { stream with parts := part.drop n :: parts })

/-- The loop that reads a block: the bytes of `buffer` up to `sum`, and whether the last `n` was 0. -/
def readPass (s : List UInt8 × Stream) : Pass (List UInt8 × Stream) (List UInt8 × Bool × Stream) :=
  let (bytes, stream) := fread (4096 - s.1.length) s.2
  let buffer := s.1 ++ bytes
  if buffer.length < 4096 ∧ bytes.length ≠ 0 then .again (buffer, stream)
  else .leave (buffer, bytes.length = 0, stream)

def readBlock (stream : Stream) : Option (List UInt8 × Bool × Stream) := loopRun readPass 4097 ([], stream)

/-- The loop of `md5_stream`: it is left with the end of the file, or with none after an error. There is no result at all
if the block is never read. -/
def streamPass (s : Ctx × Stream) : Pass (Ctx × Stream) (Option (Option (Ctx × List UInt8))) :=
  match readBlock s.2 with
  | none => .leave none
  | some (buffer, ended, stream) =>
      if ended ∧ stream.error then .leave (some none)
      else if ended then .leave (some (some (s.1, buffer)))
      else .again (processBlock buffer 4096 s.1, stream)

/-- `md5_stream`, with the address of its buffer: the checksum, unless it returns 1. -/
def md5Stream (fuel : Nat) (archUnaligned : Bool) (memory : List UInt8) (address : Nat) (stream : Stream) :
    Option (Option (List UInt8)) :=
  (loopRun streamPass fuel (initCtx memory, stream)).join.map fun result =>
    result.map fun (ctx, bytes) =>
      finishCtx (if bytes.length > 0 then processBytes archUnaligned ctx ⟨address, bytes⟩ else ctx)

/-! ## Reading -/

/-- All that the stream still gives. -/
def Stream.text (stream : Stream) : List UInt8 := stream.parts.flatten

/-- `fread` reads nothing only at the end. -/
def Stream.Reads (stream : Stream) : Prop := ∀ part ∈ stream.parts, part ≠ []

variable {stream stream' : Stream} {buffer bytes text : List UInt8} {n : Nat}

theorem fread_spec (hreads : stream.Reads) (h : fread n stream = (bytes, stream')) :
    bytes ++ stream'.text = stream.text ∧ bytes.length ≤ n ∧ stream'.Reads ∧ stream'.error = stream.error ∧
      (0 < n → bytes.length = 0 → stream.text = []) := by
  obtain ⟨parts, error⟩ := stream
  unfold fread at h
  cases parts with
  | nil =>
      cases h
      exact ⟨rfl, Nat.zero_le _, hreads, rfl, fun _ _ => rfl⟩
  | cons part parts =>
      obtain ⟨hpart, hparts⟩ := List.forall_mem_cons.mp hreads
      have hpos := List.length_pos_iff.mpr hpart
      dsimp only at h
      split at h
      · next hle =>
          cases h
          exact ⟨rfl, hle, hparts, rfl, fun _ hzero => absurd hzero (Nat.ne_of_gt hpos)⟩
      · next hgt =>
          cases h
          refine ⟨?_, List.length_take_le _ _, ?_, rfl, fun hn hzero => ?_⟩
          · show part.take n ++ (part.drop n ++ parts.flatten) = part ++ parts.flatten
            rw [← List.append_assoc, List.take_append_drop]
          · intro part' hpart'
            rcases List.mem_cons.mp hpart' with rfl | hmem
            · apply List.ne_nil_of_length_pos
              rw [List.length_drop]
              omega
            · exact hparts part' hmem
          · rw [List.length_take] at hzero
            omega

/-- A block is read to its end, or up to the end of the stream. -/
theorem readPass_spec {fuel : Nat} (hreads : stream.Reads) (hroom : buffer.length < 4096)
    (hfuel : 4096 - buffer.length < fuel) :
    ∃ bytes ended stream', loopRun readPass fuel (buffer, stream) = some (buffer ++ bytes, ended, stream') ∧
      bytes ++ stream'.text = stream.text ∧ stream'.Reads ∧ stream'.error = stream.error ∧
      (if ended then (buffer ++ bytes).length < 4096 ∧ stream'.text = [] else (buffer ++ bytes).length = 4096) := by
  induction fuel generalizing buffer stream with
  | zero => exact absurd hfuel (Nat.not_lt_zero _)
  | succ fuel ih =>
      rcases hread : fread (4096 - buffer.length) stream with ⟨bytes, stream'⟩
      obtain ⟨htext, hle, hreads', herror, hend⟩ := fread_spec hreads hread
      by_cases hagain : (buffer ++ bytes).length < 4096 ∧ bytes.length ≠ 0
      · have hpass : readPass (buffer, stream) = .again (buffer ++ bytes, stream') := by
          unfold readPass
          dsimp only
          rw [hread]
          exact if_pos hagain
        have hfuel' : 4096 - (buffer ++ bytes).length < fuel := by
          rw [List.length_append]
          omega
        obtain ⟨bytes', ended, stream'', hrun, htext', hreads'', herror', hended⟩ := ih hreads' hagain.1 hfuel'
        rw [List.append_assoc] at hrun hended
        refine ⟨bytes ++ bytes', ended, stream'', ?_, ?_, hreads'', herror'.trans herror, hended⟩
        · rw [Loop.loopRun_again hpass, hrun]
        · rw [List.append_assoc, htext', htext]
      · have hpass : readPass (buffer, stream) = .leave (buffer ++ bytes, decide (bytes.length = 0), stream') := by
          unfold readPass
          dsimp only
          rw [hread]
          exact if_neg hagain
        refine ⟨bytes, _, stream', Loop.loopRun_leave hpass fuel, htext, hreads', herror, ?_⟩
        rw [List.length_append] at hagain ⊢
        by_cases hzero : bytes.length = 0
        · have hempty := hend (by omega) hzero
          rw [hempty, List.append_eq_nil_iff] at htext
          rw [if_pos (decide_eq_true hzero)]
          exact ⟨by omega, htext.2⟩
        · rw [if_neg (by simpa using hzero)]
          omega

theorem readBlock_spec (hreads : stream.Reads) :
    ∃ bytes ended stream', readBlock stream = some (bytes, ended, stream') ∧ bytes ++ stream'.text = stream.text ∧
      stream'.Reads ∧ stream'.error = stream.error ∧
      (if ended then bytes.length < 4096 ∧ stream'.text = [] else bytes.length = 4096) :=
  @readPass_spec stream [] 4097 hreads (by decide) (by decide)

/-! ## The whole stream -/

/-- The loop computes all blocks that are complete, and leaves the rest in its buffer. -/
theorem streamPass_spec {fuel : Nat} {ctx : Ctx} {whole : List UInt8} (h : ctx.Holds whole []) (hreads : stream.Reads)
    (hfuel : stream.text.length < fuel) :
    ∃ ctx' done bytes, loopRun streamPass fuel (ctx, stream) =
        some (some (if stream.error then none else some (ctx', bytes))) ∧
      ctx'.Holds (whole ++ done) [] ∧ done ++ bytes = stream.text ∧ done.length % 4096 = 0 ∧ bytes.length < 4096 := by
  induction fuel generalizing ctx whole stream with
  | zero => exact absurd hfuel (Nat.not_lt_zero _)
  | succ fuel ih =>
      obtain ⟨bytes, ended, stream', hread, htext, hreads', herror, hended⟩ := readBlock_spec hreads
      cases ended with
      | true =>
          obtain ⟨hshort, hempty⟩ := hended
          rw [hempty, List.append_nil] at htext
          have hpass : streamPass (ctx, stream) = .leave (some (if stream.error then none else some (ctx, bytes))) := by
            unfold streamPass
            dsimp only
            rw [hread]
            dsimp only
            rw [herror]
            cases stream.error <;> rfl
          refine ⟨ctx, [], bytes, Loop.loopRun_leave hpass fuel, ?_, htext, rfl, hshort⟩
          rw [List.append_nil]
          exact h
      | false =>
          have hlength : bytes.length = 4096 := hended
          have hpass : streamPass (ctx, stream) = .again (processBlock bytes 4096 ctx, stream') := by
            unfold streamPass
            dsimp only
            rw [hread]
            rfl
          have hblock : (processBlock bytes 4096 ctx).Holds (whole ++ bytes.take 4096) [] :=
            h.processBlock (by decide) (Nat.le_of_eq hlength.symm) (by decide)
          rw [List.take_of_length_le (Nat.le_of_eq hlength)] at hblock
          have hfuel' : stream'.text.length < fuel := by
            rw [← htext, List.length_append] at hfuel
            omega
          obtain ⟨ctx', done, rest, hrun, hholds, htext', hdone, hshort⟩ := ih hblock hreads' hfuel'
          refine ⟨ctx', bytes ++ done, rest, ?_, ?_, ?_, ?_, hshort⟩
          · rw [Loop.loopRun_again hpass, hrun, herror]
          · rw [← List.append_assoc]
            exact hholds
          · rw [List.append_assoc, htext', htext]
          · rw [List.length_append]
            omega

/-- What is kept of a piece when nothing waits in the buffer. -/
theorem Piece.kept_of_empty {archUnaligned : Bool} {ctx : Ctx} (hbuflen : ctx.buflen = 0) (piece : Piece) :
    piece.kept archUnaligned ctx =
      if Md5.Slips archUnaligned piece.address piece.bytes.length then piece.bytes.take (piece.bytes.length - 64)
      else piece.bytes := by
  have htaken : taken ctx.buflen piece.bytes.length = 0 := if_pos hbuflen
  have hkept := @Piece.kept_eq archUnaligned ctx piece piece.bytes (by rw [htaken, List.drop_zero])
  rwa [htaken, List.take_zero, List.nil_append, Nat.add_zero] at hkept

/-- `md5_buffer` of a text. -/
theorem md5Buffer_spec {archUnaligned : Bool} {memory : List UInt8} (hmemory : memory.length = 128) {piece : Piece}
    (hlen : piece.bytes.length < 2 ^ 32) :
    md5Buffer archUnaligned memory piece =
      md5 (if Slips archUnaligned piece.address piece.bytes.length then piece.bytes.take (piece.bytes.length - 64)
        else piece.bytes) := by
  rw [← @Piece.kept_of_empty archUnaligned (initCtx memory) rfl, ← List.nil_append (piece.kept _ _)]
  exact finishCtx_spec (processBytes_spec (represents_initCtx hmemory) hlen)

/-- **`md5_stream`** returns 1 after an error. Without one it gives the checksum of all that was read, in whatever parts,
unless the last, incomplete block is a piece that slips; so that it agrees with `md5_buffer` when words can be read from
any address, or when both buffers begin at a word. -/
theorem md5_stream_spec {fuel : Nat} {archUnaligned : Bool} {memory : List UInt8} {address : Nat}
    (hmemory : memory.length = 128) (hreads : stream.Reads) (hfuel : stream.text.length < fuel) :
    md5Stream fuel archUnaligned memory address stream = some (if stream.error then none else
        some (md5 (if Slips archUnaligned address (stream.text.length % 4096) then
          stream.text.take (stream.text.length - 64) else stream.text))) ∧
      ∀ address', (archUnaligned = true ∨ address % 4 = 0 ∧ address' % 4 = 0) → stream.text.length < 2 ^ 32 →
        md5Stream fuel archUnaligned memory address stream =
          some (if stream.error then none else some (md5Buffer archUnaligned memory ⟨address', stream.text⟩)) := by
  have hsum : md5Stream fuel archUnaligned memory address stream = some (if stream.error then none else
      some (md5 (if Slips archUnaligned address (stream.text.length % 4096) then
        stream.text.take (stream.text.length - 64) else stream.text))) := by
    obtain ⟨ctx, done, bytes, hrun, hholds, htext, hdone, hshort⟩ := streamPass_spec (holds_initCtx hmemory) hreads hfuel
    rw [md5Stream, hrun, Option.join_some, Option.map_some]
    congr 1
    cases stream.error with
    | true => rfl
    | false =>
        have hlast : stream.text.length % 4096 = bytes.length := by
          rw [← htext, List.length_append]
          omega
        have hkept : done ++ (if Slips archUnaligned address bytes.length then bytes.take (bytes.length - 64) else bytes) =
            if Slips archUnaligned address bytes.length then stream.text.take (stream.text.length - 64)
            else stream.text := by
          rw [← htext]
          split
          · next hslips =>
              have hmore := hslips.2.2.1
              have hsub : done.length + bytes.length - 64 = done.length + (bytes.length - 64) := by omega
              rw [List.length_append, hsub, List.take_length_add_append]
          · rfl
        have hrepresents : ctx.Represents done := ⟨done, [], (List.append_nil _).symm, hholds⟩
        show some (finishCtx _) = some (md5 _)
        rw [hlast, ← hkept]
        congr 1
        apply finishCtx_spec
        split
        · have hpiece := @processBytes_spec _ _ archUnaligned ⟨address, bytes⟩ hrepresents (by show bytes.length < _; omega)
          rw [Piece.kept_of_empty hholds.buflen] at hpiece
          exact hpiece
        · next hnone =>
            rw [List.eq_nil_of_length_eq_zero (Nat.eq_zero_of_not_pos hnone), if_neg fun h => absurd h.2.2.1 (by decide),
              List.append_nil]
            exact hrepresents
  refine ⟨hsum, fun address' haligned hlen => ?_⟩
  have hnot : ∀ len, ¬ Slips archUnaligned address len ∧ ¬ Slips archUnaligned address' len := by
    rintro len
    constructor
    all_goals
      rintro ⟨harch, hunaligned, -⟩
      rcases haligned with harch' | ⟨haddress, haddress'⟩
      · rw [harch] at harch'
        cases harch'
      · contradiction
  rw [hsum, md5Buffer_spec hmemory hlen, if_neg (hnot _).1, if_neg (hnot _).2]

theorem md5_stream_spec_parts :
    md5Stream 4 false (List.replicate 128 0) 8 ⟨[[97], [98, 99]], false⟩ = some (some (md5 [97, 98, 99])) := by
  have hreads : Stream.Reads ⟨[[97], [98, 99]], false⟩ := by simp [Stream.Reads]
  have hsum := (@md5_stream_spec _ 4 false _ 8 (List.length_replicate (a := 0)) hreads (by decide)).1
  simpa [Slips, Stream.text] using hsum

end Md5

end GccXml
