import GccXml.Lib.Digest
import GccXml.Lib.Memory

namespace GccXml

/-! # `Libiberty.Md5` — checksums

`md5.c` takes a text in pieces of any size and computes over blocks of 64 bytes, so that a part of the text may wait in
the buffer of `md5_ctx` for more. Words are stored from their lowest byte on: `SWAP` does it on a machine with the other
order. -/

namespace Md5

/-! ## The blocks -/

/-- The members `A`, `B`, `C` and `D` of `md5_ctx`. -/
structure Registers where
  a : UInt32
  b : UInt32
  c : UInt32
  d : UInt32

/-- `CYCLIC`. -/
def cyclic (w s : UInt32) : UInt32 := (w <<< s) ||| (w >>> (32 - s))

def FF (b c d : UInt32) : UInt32 := d ^^^ (b &&& (c ^^^ d))

def FG (b c d : UInt32) : UInt32 := FF d b c

def FH (b c d : UInt32) : UInt32 := b ^^^ c ^^^ d

def FI (b c d : UInt32) : UInt32 := c ^^^ (b ||| ~~~d)

/-- The arguments `k`, `s` and `T` of an `OP`. -/
structure Op where
  k : Nat
  s : UInt32
  t : UInt32

/-- `OP`, with the function of its round. The registers are passed on as the next `OP` names them. -/
def Registers.op (fx : UInt32 → UInt32 → UInt32 → UInt32) (words : List UInt32) (r : Registers) (op : Op) : Registers :=
  ⟨r.d, cyclic (r.a + (fx r.b r.c r.d + words.getD op.k 0 + op.t)) op.s + r.b, r.b, r.c⟩

def round1 : List Op :=
  [⟨0, 7, 0xd76aa478⟩, ⟨1, 12, 0xe8c7b756⟩, ⟨2, 17, 0x242070db⟩, ⟨3, 22, 0xc1bdceee⟩,
   ⟨4, 7, 0xf57c0faf⟩, ⟨5, 12, 0x4787c62a⟩, ⟨6, 17, 0xa8304613⟩, ⟨7, 22, 0xfd469501⟩,
   ⟨8, 7, 0x698098d8⟩, ⟨9, 12, 0x8b44f7af⟩, ⟨10, 17, 0xffff5bb1⟩, ⟨11, 22, 0x895cd7be⟩,
   ⟨12, 7, 0x6b901122⟩, ⟨13, 12, 0xfd987193⟩, ⟨14, 17, 0xa679438e⟩, ⟨15, 22, 0x49b40821⟩]

def round2 : List Op :=
  [⟨1, 5, 0xf61e2562⟩, ⟨6, 9, 0xc040b340⟩, ⟨11, 14, 0x265e5a51⟩, ⟨0, 20, 0xe9b6c7aa⟩,
   ⟨5, 5, 0xd62f105d⟩, ⟨10, 9, 0x02441453⟩, ⟨15, 14, 0xd8a1e681⟩, ⟨4, 20, 0xe7d3fbc8⟩,
   ⟨9, 5, 0x21e1cde6⟩, ⟨14, 9, 0xc33707d6⟩, ⟨3, 14, 0xf4d50d87⟩, ⟨8, 20, 0x455a14ed⟩,
   ⟨13, 5, 0xa9e3e905⟩, ⟨2, 9, 0xfcefa3f8⟩, ⟨7, 14, 0x676f02d9⟩, ⟨12, 20, 0x8d2a4c8a⟩]

def round3 : List Op :=
  [⟨5, 4, 0xfffa3942⟩, ⟨8, 11, 0x8771f681⟩, ⟨11, 16, 0x6d9d6122⟩, ⟨14, 23, 0xfde5380c⟩,
   ⟨1, 4, 0xa4beea44⟩, ⟨4, 11, 0x4bdecfa9⟩, ⟨7, 16, 0xf6bb4b60⟩, ⟨10, 23, 0xbebfbc70⟩,
   ⟨13, 4, 0x289b7ec6⟩, ⟨0, 11, 0xeaa127fa⟩, ⟨3, 16, 0xd4ef3085⟩, ⟨6, 23, 0x04881d05⟩,
   ⟨9, 4, 0xd9d4d039⟩, ⟨12, 11, 0xe6db99e5⟩, ⟨15, 16, 0x1fa27cf8⟩, ⟨2, 23, 0xc4ac5665⟩]

def round4 : List Op :=
  [⟨0, 6, 0xf4292244⟩, ⟨7, 10, 0x432aff97⟩, ⟨14, 15, 0xab9423a7⟩, ⟨5, 21, 0xfc93a039⟩,
   ⟨12, 6, 0x655b59c3⟩, ⟨3, 10, 0x8f0ccc92⟩, ⟨10, 15, 0xffeff47d⟩, ⟨1, 21, 0x85845dd1⟩,
   ⟨8, 6, 0x6fa87e4f⟩, ⟨15, 10, 0xfe2ce6e0⟩, ⟨6, 15, 0xa3014314⟩, ⟨13, 21, 0x4e0811a1⟩,
   ⟨4, 6, 0xf7537e82⟩, ⟨11, 10, 0xbd3af235⟩, ⟨2, 15, 0x2ad7d2bb⟩, ⟨9, 21, 0xeb86d391⟩]

/-- The words of a block. -/
def correctWords (block : List UInt8) : List UInt32 :=
  (List.range 16).map fun i => UInt32.ofNat (ofLowBytes ((block.drop (4 * i)).take 4))

/-- The body of the loop of `md5_process_block`. -/
def processWords (r : Registers) (block : List UInt8) : Registers :=
  let words := correctWords block
  let r' := round4.foldl (.op FI words) (round3.foldl (.op FH words) (round2.foldl (.op FG words)
    (round1.foldl (.op FF words) r)))
  ⟨r'.a + r.a, r'.b + r.b, r'.c + r.c, r'.d + r.d⟩

/-! ## The context -/

/-- `md5_ctx`. -/
structure Ctx where
  registers : Registers
  total0 : UInt32
  total1 : UInt32
  buflen : Nat
  buffer : List UInt8

/-- The registers of `md5_init_ctx`. -/
def initial : Registers := ⟨0x67452301, 0xefcdab89, 0x98badcfe, 0x10325476⟩

/-- `md5_init_ctx`. The buffer is as it was. -/
def initCtx (buffer : List UInt8) : Ctx := ⟨initial, 0, 0, 0, buffer⟩

/-- `ctx->total[0] += len; if (ctx->total[0] < len) ++ctx->total[1];` -/
def Ctx.count (ctx : Ctx) (len : Nat) : Ctx :=
  let total0 := ctx.total0 + UInt32.ofNat len
  { ctx with total0, total1 := if total0.toNat < len then ctx.total1 + 1 else ctx.total1 }

/-- `md5_process_block`, of the first `len` bytes. The loop takes sixteen words in a pass. -/
def processBlock (buffer : List UInt8) (len : Nat) (ctx : Ctx) : Ctx :=
  { ctx.count len with registers := foldBlocks processWords 64 ((len / 4 + 15) / 16) ctx.registers buffer }

/-- `md5_read_ctx`. -/
def readCtx (r : Registers) : List UInt8 :=
  lowBytes 4 r.a.toNat ++ lowBytes 4 r.b.toNat ++ lowBytes 4 r.c.toNat ++ lowBytes 4 r.d.toNat

def fillbuf : List UInt8 := 0x80 :: List.replicate 63 0

/-- `md5_finish_ctx`. -/
def finishCtx (ctx : Ctx) : List UInt8 :=
  let bytes := ctx.buflen
  let ctx := ctx.count bytes
  let pad := if bytes ≥ 56 then 64 + 56 - bytes else 56 - bytes
  let buffer := memcpy ctx.buffer bytes (fillbuf.take pad)
  let buffer := memcpy buffer (bytes + pad) (lowBytes 4 (ctx.total0 <<< 3).toNat)
  let buffer := memcpy buffer (bytes + pad + 4) (lowBytes 4 ((ctx.total1 <<< 3) ||| (ctx.total0 >>> 29)).toNat)
  readCtx (processBlock buffer (bytes + pad + 8) ctx).registers

/-! ## The pieces -/

/-- The first part of `md5_process_bytes`: fill up the buffer if something waits in it. The number of bytes that it
takes. -/
def addToBuffer (bytes : List UInt8) (ctx : Ctx) : Ctx × Nat :=
  if ctx.buflen ≠ 0 then
    let leftOver := ctx.buflen
    let add := if 128 - leftOver > bytes.length then bytes.length else 128 - leftOver
    let ctx := { ctx with buffer := memcpy ctx.buffer leftOver (bytes.take add), buflen := ctx.buflen + add }
    if leftOver + add > 64 then
      let whole := (leftOver + add) / 64 * 64
      let ctx := processBlock ctx.buffer whole ctx
      ({ ctx with
          buffer := memcpy ctx.buffer 0 ((ctx.buffer.drop whole).take ((leftOver + add) % 64))
          buflen := (leftOver + add) % 64 }, add)
    else (ctx, add)
  else (ctx, 0)

/-- `while (len > 64)`, for a piece that does not begin at a word: every block is copied to the buffer. -/
def processUnaligned : Nat → List UInt8 → Ctx → Ctx × List UInt8
  | 0, bytes, ctx => (ctx, bytes)
  | fuel + 1, bytes, ctx =>
      if bytes.length > 64 then
        let buffer := memcpy ctx.buffer 0 (bytes.take 64)
        processUnaligned fuel (bytes.drop 64) (processBlock buffer 64 { ctx with buffer })
      else (ctx, bytes)

/-- The second part: the blocks that are complete. What is left of the piece begins behind the last block of what is
there, also after the loop. -/
def processComplete (archUnaligned : Bool) (address : Nat) (bytes : List UInt8) (ctx : Ctx) : Ctx × List UInt8 :=
  if bytes.length > 64 then
    let (ctx, bytes) :=
      if ¬ archUnaligned ∧ address % 4 ≠ 0 then processUnaligned bytes.length bytes ctx
      else (processBlock bytes (bytes.length / 64 * 64) ctx, bytes)
    (ctx, bytes.drop (bytes.length / 64 * 64))
  else (ctx, bytes)

/-- A piece of a text, and its address. -/
structure Piece where
  address : Nat
  bytes : List UInt8

/-- `md5_process_bytes`. Whether words can be read from any address is known when the library is compiled
(`_STRING_ARCH_unaligned`). -/
def processBytes (archUnaligned : Bool) (ctx : Ctx) (piece : Piece) : Ctx :=
  let (ctx, add) := addToBuffer piece.bytes ctx
  let (ctx, bytes) := processComplete archUnaligned (piece.address + add) (piece.bytes.drop add) ctx
  if bytes.length > 0 then { ctx with buffer := memcpy ctx.buffer 0 bytes, buflen := bytes.length } else ctx

/-- `md5_buffer`, with what lies in the memory of its `ctx`. -/
def md5Buffer (archUnaligned : Bool) (memory : List UInt8) (piece : Piece) : List UInt8 :=
  finishCtx (processBytes archUnaligned (initCtx memory) piece)

end Md5

end GccXml
