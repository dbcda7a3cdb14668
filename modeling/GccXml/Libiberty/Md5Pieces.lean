import GccXml.Libiberty.Md5

namespace GccXml

/-! # `Libiberty.Md5Pieces` — a text in pieces

The checksum of a text, and that `md5_process_bytes` computes it from the pieces of the text. The context stands for
the text that it was given so far: a number of complete blocks, which the registers have been computed from, and a rest
that waits in the buffer. A piece that does not begin at a word loses its last block if its end is the end of a block.

`Holds whole rest` says this of a context, where only the length and the computed blocks of `whole` count, and
`Represents text` forgets where the text is divided. `md5_process_bytes` is taken apart as the source is written: first
what waits in the buffer is completed, then the complete blocks of the piece are computed where they lie, and last the
rest is put into the buffer. Each part keeps the context a context of the text so far and what it has taken of the
piece.

The middle part has two loops, for an address that is aligned and one that is not. The second one stops a block early,
with `>` where `>=` is meant, and the block that is left does not fit into what comes after it (`Slips`). So the text
that counts is that of the pieces without these blocks, and it is the whole text exactly if no piece slips. -/

namespace Md5

/-! ## The checksum of a text -/

/-- A text with what comes after it: one bit, zeros up to the last eight bytes of a block, and its length in bits. -/
def padded (text : List UInt8) : List UInt8 :=
  text ++ (0x80 :: List.replicate ((119 - text.length % 64) % 64) 0 ++ lowBytes 8 (8 * text.length))

/-- The checksum of a text. -/
def md5 (text : List UInt8) : List UInt8 :=
  readCtx (foldBlocks processWords 64 ((padded text).length / 64) initial (padded text))

theorem length_md5 (text : List UInt8) : (md5 text).length = 16 := by
  rw [md5, readCtx]
  simp only [List.length_append, length_lowBytes]

/-! ## What a context stands for -/

/-- The number of bytes that have been computed. -/
def Ctx.total (ctx : Ctx) : Nat := ctx.total0.toNat + 2 ^ 32 * ctx.total1.toNat

/-- The blocks of `whole` have been computed, and `rest` is in the buffer. -/
structure Ctx.Holds (ctx : Ctx) (whole rest : List UInt8) : Prop where
  blocks : whole.length % 64 = 0
  registers : ctx.registers = foldBlocks processWords 64 (whole.length / 64) initial whole
  total : ctx.total = whole.length % 2 ^ 64
  buflen : ctx.buflen = rest.length
  short : rest.length ≤ 64
  buffer : ctx.buffer.take rest.length = rest
  memory : ctx.buffer.length = 128

/-- The context has been given this text. -/
def Ctx.Represents (ctx : Ctx) (text : List UInt8) : Prop := ∃ whole rest, text = whole ++ rest ∧ ctx.Holds whole rest

variable {ctx : Ctx} {whole rest bytes text : List UInt8} {len : Nat}

theorem total_count (hlen : len < 2 ^ 32) : (ctx.count len).total = (ctx.total + len) % 2 ^ 64 := by
  have h0 := ctx.total0.toNat_lt
  have h1 := ctx.total1.toNat_lt
  have hsum : (ctx.total0 + UInt32.ofNat len).toNat = (ctx.total0.toNat + len) % 2 ^ 32 := by
    rw [UInt32.toNat_add, UInt32.toNat_ofNat', Nat.mod_eq_of_lt hlen]
  have hnext : (ctx.total1 + 1).toNat = (ctx.total1.toNat + 1) % 2 ^ 32 := UInt32.toNat_add ..
  unfold Ctx.count Ctx.total
  dsimp only
  rw [hsum]
  split
  · rw [hnext]
    omega
  · omega

/-- Computing more blocks. -/
theorem processBlock_registers (hblocks : len % 64 = 0) (hlen : len ≤ bytes.length)
    (hwhole : whole.length % 64 = 0)
    (h : ctx.registers = foldBlocks processWords 64 (whole.length / 64) initial whole) :
    (processBlock bytes len ctx).registers =
      foldBlocks processWords 64 ((whole ++ bytes.take len).length / 64) initial (whole ++ bytes.take len) := by
  have htake : (bytes.take len).length = len := by
    rw [List.length_take]
    omega
  have hpasses : (len / 4 + 15) / 16 = len / 64 := by omega
  have hcount : (whole ++ bytes.take len).length / 64 = whole.length / 64 + len / 64 := by
    rw [List.length_append, htake]
    omega
  have hsplit := @foldBlocks_append_right _ _ processWords 64 (len / 64) (bytes.take len) (by omega) ctx.registers
    (bytes.drop len)
  rw [List.take_append_drop] at hsplit
  show foldBlocks processWords 64 ((len / 4 + 15) / 16) ctx.registers bytes = _
  rw [hpasses, hsplit, hcount, foldBlocks_append (by omega), h]

theorem processBlock_total (hlen : len < 2 ^ 32) (h : ctx.total = whole.length % 2 ^ 64) (hbytes : len ≤ bytes.length) :
    (processBlock bytes len ctx).total = (whole ++ bytes.take len).length % 2 ^ 64 := by
  have htotal : (processBlock bytes len ctx).total = (ctx.count len).total := rfl
  rw [htotal, total_count hlen, h, List.length_append, List.length_take, Nat.min_eq_left hbytes, Nat.mod_add_mod]

/-- `md5_process_block` goes on with the blocks at the beginning of a piece of memory. -/
theorem Ctx.Holds.processBlock (h : ctx.Holds whole rest) (hblocks : len % 64 = 0) (hbytes : len ≤ bytes.length)
    (hlen : len < 2 ^ 32) : (Md5.processBlock bytes len ctx).Holds (whole ++ bytes.take len) rest where
  blocks := by
    have hwhole := h.blocks
    rw [List.length_append, List.length_take, Nat.min_eq_left hbytes]
    omega
  registers := processBlock_registers hblocks hbytes h.blocks h.registers
  total := processBlock_total hlen h.total hbytes
  buflen := h.buflen
  short := h.short
  buffer := h.buffer
  memory := h.memory

/-- Another rest, which has been copied to the beginning of the buffer. -/
theorem Ctx.Holds.copy (h : ctx.Holds whole rest) (hbytes : bytes.length ≤ 64) :
    { ctx with buffer := memcpy ctx.buffer 0 bytes, buflen := bytes.length }.Holds whole bytes where
  blocks := h.blocks
  registers := h.registers
  total := h.total
  buflen := rfl
  short := hbytes
  buffer := by
    have hmemory := h.memory
    have htake := @take_memcpy ctx.buffer bytes 0 (by omega)
    rwa [Nat.zero_add, List.take_zero, List.nil_append] at htake
  memory := by
    have hmemory := h.memory
    show (memcpy ctx.buffer 0 bytes).length = 128
    rw [length_memcpy (by omega), hmemory]

/-! ## The parts of `md5_process_bytes` -/

/-- The number of bytes of a piece that go to the buffer first. -/
def taken (buflen len : Nat) : Nat := if buflen = 0 then 0 else min len (128 - buflen)

theorem addToBuffer_snd (bytes : List UInt8) (ctx : Ctx) : (addToBuffer bytes ctx).2 = taken ctx.buflen bytes.length := by
  have hmin : (if 128 - ctx.buflen > bytes.length then bytes.length else 128 - ctx.buflen) =
      min bytes.length (128 - ctx.buflen) := by
    split <;> omega
  unfold addToBuffer taken
  by_cases hzero : ctx.buflen = 0
  · rw [if_neg (not_not_intro hzero), if_pos hzero]
  · rw [if_pos hzero, if_neg hzero]
    dsimp only
    rw [hmin]
    split <;> rfl

/-- **The buffer.** What waits in it is completed, and either the piece is used up or nothing waits any more. -/
theorem addToBuffer_spec (h : ctx.Holds whole rest) (bytes : List UInt8) :
    ∃ whole' rest', (addToBuffer bytes ctx).1.Holds whole' rest' ∧
      whole' ++ rest' = whole ++ rest ++ bytes.take (taken ctx.buflen bytes.length) ∧
      (bytes.drop (taken ctx.buflen bytes.length) = [] ∨ rest' = []) := by
  have hbuflen := h.buflen
  have hshort := h.short
  have hmemory := h.memory
  have hadd : (if 128 - ctx.buflen > bytes.length then bytes.length else 128 - ctx.buflen) =
      min bytes.length (128 - ctx.buflen) := by
    split <;> omega
  unfold addToBuffer taken
  by_cases hzero : ctx.buflen = 0
  · have hrest : rest = [] := List.eq_nil_of_length_eq_zero (by omega)
    rw [if_neg (not_not_intro hzero), if_pos hzero, List.take_zero, List.append_nil]
    exact ⟨whole, rest, h, rfl, .inr hrest⟩
  · rw [if_pos hzero, if_neg hzero]
    dsimp only
    rw [hadd]
    generalize hmin : min bytes.length (128 - ctx.buflen) = add
    have hlength : (bytes.take add).length = add := by
      rw [List.length_take]
      omega
    have hroom : ctx.buflen + (bytes.take add).length ≤ ctx.buffer.length := by omega
    have hcopied := take_memcpy hroom
    rw [hlength, hbuflen, h.buffer] at hcopied
    rw [hbuflen]
    split
    · next hmore =>
        -- at least one block is complete
        have hroom' : rest.length + (bytes.take add).length ≤ ctx.buffer.length := by omega
        generalize hbuffer : memcpy ctx.buffer rest.length (bytes.take add) = buffer at hcopied ⊢
        have hbuffer' : buffer.length = 128 := by rw [← hbuffer, length_memcpy hroom', hmemory]
        have hkept : buffer.take rest.length = rest := calc
          buffer.take rest.length = (buffer.take (rest.length + add)).take rest.length := by
            rw [List.take_take, Nat.min_eq_left (Nat.le_add_right _ _)]
          _ = rest := by rw [hcopied, List.take_left' rfl]
        have hcopy : { ctx with buffer := buffer }.Holds whole rest :=
          ⟨h.blocks, h.registers, h.total, h.buflen, h.short, hkept, hbuffer'⟩
        have hleft : ((buffer.drop ((rest.length + add) / 64 * 64)).take ((rest.length + add) % 64)).length =
            (rest.length + add) % 64 := by
          rw [List.length_take, List.length_drop]
          omega
        have hblocks : (processBlock buffer ((rest.length + add) / 64 * 64) { ctx with buffer := buffer }).Holds
            (whole ++ buffer.take ((rest.length + add) / 64 * 64)) rest :=
          hcopy.processBlock (by omega) (by omega) (by omega)
        have hdone := @Ctx.Holds.copy _ _ _ ((buffer.drop ((rest.length + add) / 64 * 64)).take
          ((rest.length + add) % 64)) hblocks (by omega)
        rw [hleft] at hdone
        refine ⟨_, _, hdone, ?_, ?_⟩
        · rw [List.append_assoc, ← List.take_add, Nat.div_add_mod', hcopied, List.append_assoc]
        · by_cases hall : add = bytes.length
          · left
            rw [hall, List.drop_length]
          · right
            have hfull : (rest.length + add) % 64 = 0 := by omega
            rw [hfull, List.take_zero]
    · next hless =>
        -- there is room for the whole piece
        refine ⟨whole, rest ++ bytes.take add, ?_, (List.append_assoc ..).symm, .inl ?_⟩
        · exact
            { blocks := h.blocks
              registers := h.registers
              total := h.total
              buflen := by rw [List.length_append, hlength]
              short := by rw [List.length_append, hlength]; omega
              buffer := by rw [List.length_append, hlength]; exact hcopied
              memory := by rw [← hbuflen, length_memcpy hroom, hmemory] }
        · apply List.drop_eq_nil_of_le
          omega

/-- No block more is computed. -/
theorem Ctx.Holds.stop (h : ctx.Holds whole []) (hshort : bytes.length ≤ 64) :
    ∃ n, ctx.Holds (whole ++ bytes.take (64 * n)) [] ∧ bytes = bytes.drop (64 * n) ∧ bytes.length ≤ 64 * n + 64 ∧
      (bytes ≠ [] → 64 * n < bytes.length) := by
  refine ⟨0, ?_, rfl, by omega, fun hne => List.length_pos_iff.mpr hne⟩
  rw [List.take_zero, List.append_nil]
  exact h

/-- Every pass of the loop over a piece that does not begin at a word computes a block, until no more than 64 bytes are
left. -/
theorem processUnaligned_spec {fuel : Nat} (h : ctx.Holds whole []) (hfuel : bytes.length ≤ fuel) :
    ∃ n, (processUnaligned fuel bytes ctx).1.Holds (whole ++ bytes.take (64 * n)) [] ∧
      (processUnaligned fuel bytes ctx).2 = bytes.drop (64 * n) ∧ bytes.length ≤ 64 * n + 64 ∧
      (bytes ≠ [] → 64 * n < bytes.length) := by
  induction fuel generalizing bytes ctx whole with
  | zero => exact h.stop (by omega)
  | succ fuel ih =>
      unfold processUnaligned
      split
      · next hmore =>
          have hmemory := h.memory
          have hlength : (bytes.take 64).length = 64 := by
            rw [List.length_take]
            omega
          have htake := @take_memcpy ctx.buffer (bytes.take 64) 0 (by omega)
          rw [Nat.zero_add, hlength, List.take_zero, List.nil_append] at htake
          have hbuffer : (memcpy ctx.buffer 0 (bytes.take 64)).length = 128 := by
            rw [length_memcpy (by omega), hmemory]
          generalize memcpy ctx.buffer 0 (bytes.take 64) = buffer at htake hbuffer ⊢
          have hcopy : { ctx with buffer := buffer }.Holds whole [] :=
            ⟨h.blocks, h.registers, h.total, h.buflen, h.short, List.take_zero, hbuffer⟩
          have hblock : (processBlock buffer 64 { ctx with buffer := buffer }).Holds (whole ++ buffer.take 64) [] :=
            hcopy.processBlock (Nat.mod_self 64) (by omega) (by omega)
          rw [htake] at hblock
          have hfuel' : (bytes.drop 64).length ≤ fuel := by
            rw [List.length_drop]
            omega
          obtain ⟨n, hholds, hdrop, hle, hlt⟩ := ih hblock hfuel'
          rw [List.length_drop] at hle hlt
          refine ⟨n + 1, ?_, ?_, by omega, ?_⟩
          · rw [Nat.mul_succ, Nat.add_comm, List.take_add, ← List.append_assoc]
            exact hholds
          · rw [Nat.mul_succ, Nat.add_comm, ← List.drop_drop]
            exact hdrop
          · intro _
            have hne : bytes.drop 64 ≠ [] := by
              apply List.ne_nil_of_length_pos
              rw [List.length_drop]
              omega
            have hlt' := hlt hne
            omega
      · next hless => exact h.stop (by omega)

/-- What is left of a piece when the buffer has been filled loses its last block: it does not begin at a word, and it ends
with a block. -/
def Slips (archUnaligned : Bool) (address len : Nat) : Prop :=
  archUnaligned = false ∧ address % 4 ≠ 0 ∧ 64 < len ∧ len % 64 = 0

instance (archUnaligned : Bool) (address len : Nat) : Decidable (Slips archUnaligned address len) :=
  inferInstanceAs (Decidable (_ ∧ _ ∧ _ ∧ _))

/-- **The complete blocks.** What is computed and what is left of a piece is the piece, unless its last block slips. -/
theorem processComplete_spec (archUnaligned : Bool) (address : Nat) (h : ctx.Holds whole rest)
    (hrest : bytes = [] ∨ rest = []) (hlen : bytes.length < 2 ^ 32) :
    ∃ done, (processComplete archUnaligned address bytes ctx).1.Holds (whole ++ done) rest ∧
      done ++ (processComplete archUnaligned address bytes ctx).2 =
        (if Slips archUnaligned address bytes.length then bytes.take (bytes.length - 64) else bytes) ∧
      (processComplete archUnaligned address bytes ctx).2.length ≤ 64 ∧
      ((processComplete archUnaligned address bytes ctx).2 = [] ∨ rest = []) := by
  unfold processComplete
  by_cases hmore : bytes.length > 64
  · have hempty : rest = [] := hrest.resolve_left (List.ne_nil_of_length_pos (by omega))
    subst hempty
    rw [if_pos hmore]
    by_cases hunaligned : ¬ archUnaligned = true ∧ address % 4 ≠ 0
    · rw [if_pos hunaligned]
      obtain ⟨n, hholds, hdrop, hle, hlt⟩ := processUnaligned_spec h (Nat.le_refl bytes.length)
      have hlt := hlt (List.ne_nil_of_length_pos (by omega))
      refine ⟨_, hholds, ?_, ?_, .inr rfl⟩
      · dsimp only
        rw [hdrop, List.drop_drop, List.length_drop]
        split
        · next hslips =>
            obtain ⟨-, -, -, hend⟩ := hslips
            have hlast : bytes.length - 64 * n = 64 := by omega
            rw [hlast, List.drop_eq_nil_of_le (by omega), List.append_nil]
            congr 1
            omega
        · next hkeeps =>
            have harch : archUnaligned = false := Bool.eq_false_iff.mpr hunaligned.1
            have hnot : bytes.length % 64 ≠ 0 := fun hend => hkeeps ⟨harch, hunaligned.2, hmore, hend⟩
            have hnone : (bytes.length - 64 * n) / 64 * 64 = 0 := by omega
            rw [hnone, Nat.add_zero, List.take_append_drop]
      · dsimp only
        rw [hdrop, List.length_drop, List.length_drop]
        omega
    · rw [if_neg hunaligned]
      have hkeeps : ¬ Slips archUnaligned address bytes.length := by
        rintro ⟨harch, haddress, -⟩
        exact hunaligned ⟨Bool.eq_false_iff.mp harch, haddress⟩
      rw [if_neg hkeeps]
      refine ⟨_, h.processBlock (by omega) (Nat.div_mul_le_self _ _) (by omega), List.take_append_drop _ _, ?_, .inr rfl⟩
      dsimp only
      rw [List.length_drop]
      omega
  · rw [if_neg hmore]
    refine ⟨[], ?_, ?_, Nat.le_of_not_lt hmore, hrest⟩
    · rw [List.append_nil]
      exact h
    · rw [if_neg fun hslips => hmore hslips.2.2.1, List.nil_append]

/-- A piece slips if the rest of it does. -/
def Piece.Slips (archUnaligned : Bool) (ctx : Ctx) (piece : Piece) : Prop :=
  Md5.Slips archUnaligned (piece.address + taken ctx.buflen piece.bytes.length)
    (piece.bytes.length - taken ctx.buflen piece.bytes.length)

instance (archUnaligned : Bool) (ctx : Ctx) (piece : Piece) : Decidable (piece.Slips archUnaligned ctx) :=
  inferInstanceAs (Decidable (Md5.Slips _ _ _))

/-- What is computed of a piece. -/
def Piece.kept (archUnaligned : Bool) (ctx : Ctx) (piece : Piece) : List UInt8 :=
  if piece.Slips archUnaligned ctx then piece.bytes.take (piece.bytes.length - 64) else piece.bytes

/-- What is kept of a piece is what goes to the buffer first and what is kept of the rest. -/
theorem Piece.kept_eq (archUnaligned : Bool) (ctx : Ctx) (piece : Piece) {left : List UInt8}
    (hleft : left = piece.bytes.drop (taken ctx.buflen piece.bytes.length)) :
    piece.kept archUnaligned ctx = piece.bytes.take (taken ctx.buflen piece.bytes.length) ++
      (if Md5.Slips archUnaligned (piece.address + taken ctx.buflen piece.bytes.length) left.length then
        left.take (left.length - 64) else left) := by
  have hlength : left.length = piece.bytes.length - taken ctx.buflen piece.bytes.length := by
    rw [hleft, List.length_drop]
  unfold kept
  rw [hlength]
  by_cases hslips : piece.Slips archUnaligned ctx
  · have hrest : Md5.Slips archUnaligned (piece.address + taken ctx.buflen piece.bytes.length)
        (piece.bytes.length - taken ctx.buflen piece.bytes.length) := hslips
    have hcount : piece.bytes.length - 64 = taken ctx.buflen piece.bytes.length +
        (piece.bytes.length - taken ctx.buflen piece.bytes.length - 64) := by
      have hmore := hrest.2.2.1
      omega
    rw [if_pos hslips, if_pos hrest, hleft, ← List.take_add, ← hcount]
  · have hrest : ¬ Md5.Slips archUnaligned (piece.address + taken ctx.buflen piece.bytes.length)
        (piece.bytes.length - taken ctx.buflen piece.bytes.length) := hslips
    rw [if_neg hslips, if_neg hrest, hleft, List.take_append_drop]

/-- **`md5_process_bytes`** adds to the text what it keeps of the piece. -/
theorem processBytes_spec {archUnaligned : Bool} {piece : Piece} (h : ctx.Represents text)
    (hlen : piece.bytes.length < 2 ^ 32) :
    (processBytes archUnaligned ctx piece).Represents (text ++ piece.kept archUnaligned ctx) := by
  obtain ⟨whole, rest, rfl, hholds⟩ := h
  obtain ⟨whole', rest', hadded, happend, hor⟩ := addToBuffer_spec hholds piece.bytes
  have hdropped : (piece.bytes.drop (taken ctx.buflen piece.bytes.length)).length < 2 ^ 32 := by
    rw [List.length_drop]
    omega
  obtain ⟨done, hdone, hkept, hshort, hor'⟩ := processComplete_spec archUnaligned
    (piece.address + taken ctx.buflen piece.bytes.length) hadded hor hdropped
  have hkept' : whole ++ rest ++ piece.kept archUnaligned ctx = whole' ++ rest' ++ (done ++ (processComplete archUnaligned
      (piece.address + taken ctx.buflen piece.bytes.length)
      (piece.bytes.drop (taken ctx.buflen piece.bytes.length)) (addToBuffer piece.bytes ctx).1).2) := by
    rw [hkept, Piece.kept_eq archUnaligned ctx piece rfl, ← List.append_assoc, happend]
  rw [hkept']
  unfold processBytes
  dsimp only
  rw [addToBuffer_snd]
  split
  · next hleft =>
      -- the end of the piece waits
      have hempty : rest' = [] := hor'.resolve_left (List.ne_nil_of_length_pos hleft)
      subst hempty
      refine ⟨_, _, ?_, hdone.copy hshort⟩
      rw [List.append_nil, List.append_assoc]
  · next hnone =>
      have hnil := List.eq_nil_of_length_eq_zero (Nat.eq_zero_of_not_pos hnone)
      rw [hnil, List.append_nil] at hkept ⊢
      refine ⟨_, _, ?_, hdone⟩
      rcases hor with hused | hempty
      · -- the whole piece waits with what was there before
        have hdone' : done = [] := by
          rw [hkept, hused]
          split <;> rfl
        rw [hdone', List.append_nil, List.append_nil]
      · rw [hempty, List.append_nil, List.append_nil]

/-! ## The end -/

/-- Two words hold the number of bits. -/
theorem lowBytes_total (ctx : Ctx) (h : ctx.total = text.length % 2 ^ 64) :
    lowBytes 4 (ctx.total0 <<< 3).toNat ++ lowBytes 4 ((ctx.total1 <<< 3) ||| (ctx.total0 >>> 29)).toNat =
      lowBytes 8 (8 * text.length) := by
  have h0 := ctx.total0.toNat_lt
  have h1 := ctx.total1.toNat_lt
  unfold Ctx.total at h
  have hlow : (ctx.total0 <<< 3).toNat = 8 * ctx.total0.toNat % 2 ^ 32 := by
    rw [UInt32.toNat_shiftLeft, Nat.shiftLeft_eq, Nat.mul_comm]
    rfl
  have hcarry : (ctx.total0 >>> 29).toNat = ctx.total0.toNat / 2 ^ 29 := by
    rw [UInt32.toNat_shiftRight, Nat.shiftRight_eq_div_pow]
    rfl
  have hshift : (ctx.total1 <<< 3).toNat = 2 ^ 3 * (ctx.total1.toNat % 2 ^ 29) := by
    rw [UInt32.toNat_shiftLeft, Nat.shiftLeft_eq]
    show ctx.total1.toNat * 2 ^ 3 % 2 ^ 32 = _
    omega
  have hhigh : ((ctx.total1 <<< 3) ||| (ctx.total0 >>> 29)).toNat =
      (8 * ctx.total1.toNat + ctx.total0.toNat / 2 ^ 29) % 2 ^ 32 := by
    rw [UInt32.toNat_or, hshift, hcarry, ← Nat.two_pow_add_eq_or_of_lt (by omega)]
    omega
  rw [hlow, hhigh, lowBytes_append 4 (by omega), ← lowBytes_mod (4 + 4) (8 * text.length)]
  congr 1
  omega

theorem take_fillbuf {pad : Nat} (hpos : 0 < pad) (hpad : pad ≤ 64) :
    fillbuf.take pad = 0x80 :: List.replicate (pad - 1) 0 := by
  obtain ⟨n, rfl⟩ : ∃ n, pad = n + 1 := ⟨pad - 1, by omega⟩
  rw [fillbuf, List.take_succ_cons, List.take_replicate, Nat.min_eq_left (by omega)]
  rfl

/-- **`md5_finish_ctx`** gives the checksum of the text. -/
theorem finishCtx_spec (h : ctx.Represents text) : finishCtx ctx = md5 text := by
  obtain ⟨whole, rest, rfl, hholds⟩ := h
  have hblocks := hholds.blocks
  have hshort := hholds.short
  have hmemory := hholds.memory
  have htotal : (ctx.count rest.length).total = (whole ++ rest).length % 2 ^ 64 := by
    rw [total_count (by omega), hholds.total, List.length_append, Nat.mod_add_mod]
  unfold finishCtx
  rw [hholds.buflen]
  dsimp only
  generalize hpad : (if rest.length ≥ 56 then 64 + 56 - rest.length else 56 - rest.length) = pad
  have hbounds : 0 < pad ∧ pad ≤ 64 ∧ (rest.length + pad = 56 ∨ rest.length + pad = 120) := by
    split at hpad <;> omega
  obtain ⟨hpos, hle, hend⟩ := hbounds
  have hfill : (fillbuf.take pad).length = pad := by
    rw [take_fillbuf hpos hle, List.length_cons, List.length_replicate]
    omega
  -- what is written to the buffer, one part behind the other
  have hroom₁ : rest.length + (fillbuf.take pad).length ≤ (ctx.count rest.length).buffer.length := by
    show _ ≤ ctx.buffer.length
    omega
  have hbuffer₁ := take_memcpy hroom₁
  have hlength₁ := length_memcpy hroom₁
  generalize memcpy (ctx.count rest.length).buffer rest.length (fillbuf.take pad) = buffer₁ at hbuffer₁ hlength₁ ⊢
  rw [hfill, show (ctx.count rest.length).buffer = ctx.buffer from rfl, hholds.buffer] at hbuffer₁
  have hroom₂ : rest.length + pad + (lowBytes 4 ((ctx.count rest.length).total0 <<< 3).toNat).length ≤
      buffer₁.length := by
    rw [length_lowBytes, hlength₁]
    show _ ≤ ctx.buffer.length
    omega
  have hbuffer₂ := take_memcpy hroom₂
  have hlength₂ := length_memcpy hroom₂
  generalize memcpy buffer₁ (rest.length + pad) (lowBytes 4 ((ctx.count rest.length).total0 <<< 3).toNat) = buffer₂
    at hbuffer₂ hlength₂ ⊢
  rw [length_lowBytes, hbuffer₁] at hbuffer₂
  have hroom₃ : rest.length + pad + 4 + (lowBytes 4 (((ctx.count rest.length).total1 <<< 3) |||
      ((ctx.count rest.length).total0 >>> 29)).toNat).length ≤ buffer₂.length := by
    rw [length_lowBytes, hlength₂, hlength₁]
    show _ ≤ ctx.buffer.length
    omega
  have hbuffer₃ := take_memcpy hroom₃
  have hlength₃ := length_memcpy hroom₃
  generalize memcpy buffer₂ (rest.length + pad + 4) (lowBytes 4 (((ctx.count rest.length).total1 <<< 3) |||
    ((ctx.count rest.length).total0 >>> 29)).toNat) = buffer₃ at hbuffer₃ hlength₃ ⊢
  rw [length_lowBytes, hbuffer₂, List.append_assoc, lowBytes_total _ htotal, Nat.add_assoc] at hbuffer₃
  -- this is the end of the padded text
  have hpadded : whole ++ buffer₃.take (rest.length + pad + 8) = padded (whole ++ rest) := by
    have hzeros : (119 - (whole ++ rest).length % 64) % 64 = pad - 1 := by
      rw [List.length_append]
      omega
    rw [hbuffer₃, padded, hzeros, take_fillbuf hpos hle]
    simp only [List.append_assoc, List.cons_append]
  have hroom : rest.length + pad + 8 ≤ buffer₃.length := by
    rw [hlength₃, hlength₂, hlength₁]
    show _ ≤ ctx.buffer.length
    omega
  have hregisters : (processBlock buffer₃ (rest.length + pad + 8) (ctx.count rest.length)).registers = _ :=
    processBlock_registers (by omega) hroom hblocks hholds.registers
  rw [hregisters, hpadded]
  rfl

/-! ## All pieces -/

/-- What is computed of the pieces, one after the other. -/
def keptOf (archUnaligned : Bool) : Ctx → List Piece → List UInt8
  | _, [] => []
  | ctx, piece :: pieces => piece.kept archUnaligned ctx ++ keptOf archUnaligned (processBytes archUnaligned ctx piece) pieces

/-- No piece slips when its turn comes. -/
def NoneSlips (archUnaligned : Bool) : Ctx → List Piece → Prop
  | _, [] => True
  | ctx, piece :: pieces =>
      ¬ piece.Slips archUnaligned ctx ∧ NoneSlips archUnaligned (processBytes archUnaligned ctx piece) pieces

variable {archUnaligned : Bool} {piece : Piece} {pieces : List Piece} {memory : List UInt8}

theorem holds_initCtx (hmemory : memory.length = 128) : (initCtx memory).Holds [] [] :=
  ⟨rfl, rfl, rfl, rfl, Nat.zero_le _, List.take_zero, hmemory⟩

theorem represents_initCtx (hmemory : memory.length = 128) : (initCtx memory).Represents [] :=
  ⟨[], [], rfl, holds_initCtx hmemory⟩

/-- A run over the pieces. -/
theorem processBytes_foldl (h : ctx.Represents text) (hlen : ∀ piece ∈ pieces, piece.bytes.length < 2 ^ 32) :
    (pieces.foldl (processBytes archUnaligned) ctx).Represents (text ++ keptOf archUnaligned ctx pieces) := by
  induction pieces generalizing ctx text with
  | nil =>
      rw [keptOf, List.append_nil]
      exact h
  | cons piece pieces ih =>
      obtain ⟨hpiece, hpieces⟩ := List.forall_mem_cons.mp hlen
      rw [List.foldl_cons, keptOf, ← List.append_assoc]
      exact ih (processBytes_spec h hpiece) hpieces

theorem Piece.kept_length_le : (piece.kept archUnaligned ctx).length ≤ piece.bytes.length := by
  unfold kept
  split
  · exact List.length_take_le' _ _
  · exact Nat.le_refl _

theorem keptOf_length_le : (keptOf archUnaligned ctx pieces).length ≤ (pieces.flatMap Piece.bytes).length := by
  induction pieces generalizing ctx with
  | nil => exact Nat.le_refl _
  | cons piece pieces ih =>
      rw [keptOf, List.flatMap_cons, List.length_append, List.length_append]
      exact Nat.add_le_add Piece.kept_length_le ih

/-- Everything is kept if and only if nothing slips. -/
theorem keptOf_eq_iff : keptOf archUnaligned ctx pieces = pieces.flatMap Piece.bytes ↔ NoneSlips archUnaligned ctx pieces := by
  induction pieces generalizing ctx with
  | nil => exact iff_of_true rfl trivial
  | cons piece pieces ih =>
      rw [keptOf, List.flatMap_cons, NoneSlips]
      by_cases hslips : piece.Slips archUnaligned ctx
      · -- the text is shorter
        refine iff_of_false (fun heq => ?_) fun h => h.1 hslips
        have hlength := congrArg List.length heq
        have hle := @keptOf_length_le (processBytes archUnaligned ctx piece) archUnaligned pieces
        have hmore := hslips.2.2.1
        rw [List.length_append, List.length_append, Piece.kept, if_pos hslips, List.length_take] at hlength
        omega
      · rw [Piece.kept, if_neg hslips, List.append_right_inj, ih, and_iff_right hslips]

/-- **A text in pieces**, wherever it is cut, has the checksum of the text that is kept; and the whole text is kept if
and only if no piece slips. -/
theorem md5_of_pieces (hmemory : memory.length = 128) (hlen : ∀ piece ∈ pieces, piece.bytes.length < 2 ^ 32) :
    finishCtx (pieces.foldl (processBytes archUnaligned) (initCtx memory)) =
        md5 (keptOf archUnaligned (initCtx memory) pieces) ∧
      (keptOf archUnaligned (initCtx memory) pieces = pieces.flatMap Piece.bytes ↔
        NoneSlips archUnaligned (initCtx memory) pieces) := by
  have hrun := @processBytes_foldl _ _ archUnaligned _ (represents_initCtx hmemory) hlen
  rw [List.nil_append] at hrun
  exact ⟨finishCtx_spec hrun, keptOf_eq_iff⟩

theorem md5_of_pieces_abc :
    finishCtx ([⟨0, [97]⟩, ⟨1, [98, 99]⟩].foldl (processBytes false) (initCtx (List.replicate 128 0))) =
      md5 [97, 98, 99] := by
  have hlen : ∀ piece ∈ [Piece.mk 0 [97], ⟨1, [98, 99]⟩], piece.bytes.length < 2 ^ 32 := by simp
  obtain ⟨hsum, hkept⟩ := @md5_of_pieces false _ _ (List.length_replicate (a := 0)) hlen
  rw [hsum, hkept.mpr ⟨fun h => absurd h.2.2.1 (by decide), fun h => absurd h.2.2.1 (by decide), trivial⟩]
  rfl

example : md5 [97, 98, 99] =
    [0x90, 0x01, 0x50, 0x98, 0x3c, 0xd2, 0x4f, 0xb0, 0xd6, 0x96, 0x3f, 0x7d, 0x28, 0xe1, 0x7f, 0x72] := by decide +kernel

end Md5

end GccXml
