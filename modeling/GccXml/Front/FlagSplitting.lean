import GccXml.Front.ScannerBounds

namespace GccXml

/-! # `Front.FlagSplitting` — splitting the flags inverts quoting

How a list of arguments can be written as a string of flags: an argument is a mix of pieces, each unquoted or quoted,
and white space stands between two arguments. Splitting any such string gives the arguments back.

The ways to write are types, so that a string of flags is well written by construction. A `QuotedChar` is a character
or an escape, a `FlagPiece` is a plain or an escaped character or a text between quotation marks of either kind, a
`WrittenArgument` has at least one piece, and `WrittenFlags` has the blanks in front of, between and behind the
arguments. Each type has a text, which is what stands in the string, and a value, which is what it means.

The scanner is followed along them: one character, one piece, one argument, and then all of them. It leaves the
arguments packed into the working space, one NUL behind each, with their count; the second half of the code takes them
apart again (`splitBuffer_pack`). Every list of arguments without NULs can be written in this way. -/

/-! ## Ways to write a list of arguments -/

/-- A character between quotes. -/
inductive QuotedChar (quote : Char) where
  | literal (c : Char) (h : c ≠ quote ∧ c ≠ '\\' ∧ c ≠ nul)
  | escaped (c : Char) (h : c ≠ nul)

namespace QuotedChar

variable {quote : Char}

def text : QuotedChar quote → List Char
  | literal c _ => [c]
  | escaped c _ => ['\\', c]

def value : QuotedChar quote → Char
  | literal c _ => c
  | escaped c _ => c

theorem value_ne_nul (q : QuotedChar quote) : q.value ≠ nul := by
  cases q with
  | literal c h => exact h.2.2
  | escaped c h => exact h

end QuotedChar

/-- A character that stands for itself outside quotes. -/
def IsPlain (c : Char) : Prop := isspace c = false ∧ c ≠ '\\' ∧ c ≠ '\'' ∧ c ≠ '"' ∧ c ≠ nul

/-- A piece of a written argument. -/
inductive FlagPiece where
  | plain (c : Char) (h : IsPlain c)
  | escaped (c : Char) (h : c ≠ nul)
  | singleQuoted (cs : List (QuotedChar '\''))
  | doubleQuoted (cs : List (QuotedChar '"'))

namespace FlagPiece

def text : FlagPiece → List Char
  | plain c _ => [c]
  | escaped c _ => ['\\', c]
  | singleQuoted cs => '\'' :: cs.flatMap QuotedChar.text ++ ['\'']
  | doubleQuoted cs => '"' :: cs.flatMap QuotedChar.text ++ ['"']

/-- The characters a piece stands for. -/
def value : FlagPiece → List Char
  | plain c _ => [c]
  | escaped c _ => [c]
  | singleQuoted cs => cs.map QuotedChar.value
  | doubleQuoted cs => cs.map QuotedChar.value

end FlagPiece

/-- An argument written as a non-empty mix of pieces. -/
structure WrittenArgument where
  pieces : List FlagPiece
  nonempty : pieces ≠ []

namespace WrittenArgument

def text (w : WrittenArgument) : List Char := w.pieces.flatMap FlagPiece.text

/-- The argument that is written. -/
def value (w : WrittenArgument) : List Char := w.pieces.flatMap FlagPiece.value

end WrittenArgument

/-- White space, possibly none. -/
structure Blanks where
  chars : List Char
  blank : ∀ c ∈ chars, isspace c = true

/-- What follows a written argument: further ones, each after some white space, and white space at the end. -/
inductive FurtherArguments where
  | done (trail : Blanks)
  | more (sep : Blanks) (hsep : sep.chars ≠ []) (w : WrittenArgument) (rest : FurtherArguments)

namespace FurtherArguments

def text : FurtherArguments → List Char
  | done trail => trail.chars
  | more sep _ w rest => sep.chars ++ (w.text ++ rest.text)

def arguments : FurtherArguments → List (List Char)
  | done _ => []
  | more _ _ w rest => w.value :: rest.arguments

end FurtherArguments

/-- A string of flags as it can be written. -/
inductive WrittenFlags where
  | none (blanks : Blanks)
  | some (lead : Blanks) (first : WrittenArgument) (rest : FurtherArguments)

namespace WrittenFlags

def text : WrittenFlags → List Char
  | none blanks => blanks.chars
  | some lead first rest => lead.chars ++ (first.text ++ rest.text)

/-- The list of arguments that is written. -/
def arguments : WrittenFlags → List (List Char)
  | none _ => []
  | some _ first rest => first.value :: rest.arguments

end WrittenFlags

/-! ## No argument holds a NUL -/

theorem FlagPiece.nul_notMem_value (p : FlagPiece) : nul ∉ p.value := by
  cases p with
  | plain c h => simpa [value] using h.2.2.2.2.symm
  | escaped c h => simpa [value] using h.symm
  | singleQuoted cs => simpa [value] using fun q _ => q.value_ne_nul
  | doubleQuoted cs => simpa [value] using fun q _ => q.value_ne_nul

theorem WrittenArgument.nul_notMem_value (w : WrittenArgument) : nul ∉ w.value := by
  intro h
  obtain ⟨p, -, hp⟩ := List.mem_flatMap.mp h
  exact p.nul_notMem_value hp

theorem FurtherArguments.nul_notMem (rest : FurtherArguments) : ∀ a ∈ rest.arguments, nul ∉ a := by
  induction rest with
  | done => simp [arguments]
  | more sep hsep w rest ih => simpa [arguments] using ⟨w.nul_notMem_value, ih⟩

/-! ## Scanning one argument -/

/-- Inside quotes the scanner stores what the characters stand for. -/
theorem scanArgument_quotedChars {quoted : Quoted} {quote : Char}
    (hq : quoted = .single ∧ quote = '\'' ∨ quoted = .double ∧ quote = '"') (cs : List (QuotedChar quote))
    (rest out : List Char) :
    scanArgument quoted (cs.flatMap QuotedChar.text ++ rest) out
      = scanArgument quoted rest (out ++ cs.map QuotedChar.value) := by
  have hopen : quoted ≠ .unquoted := by rcases hq with ⟨rfl, -⟩ | ⟨rfl, -⟩ <;> decide
  induction cs generalizing out with
  | nil => simp
  | cons q cs ih =>
      have hstore : scanArgument quoted (q.text ++ (cs.flatMap QuotedChar.text ++ rest)) out
          = scanArgument quoted (cs.flatMap QuotedChar.text ++ rest) (out ++ [q.value]) := by
        cases q with
        | literal c h =>
            have hclose : ¬ (quoted = .single ∧ c = '\'' ∨ quoted = .double ∧ c = '"') := by
              rcases hq with ⟨rfl, rfl⟩ | ⟨rfl, rfl⟩ <;> simpa using h.1
            simp [QuotedChar.text, QuotedChar.value, scanArgument_cons h.2.1, hopen, hclose]
        | escaped c h => simp [QuotedChar.text, QuotedChar.value]
      rw [List.flatMap_cons, List.append_assoc, hstore, ih]
      simp

/-- **A piece is scanned** to what it stands for, and leaves the scanner outside quotes. -/
theorem scanArgument_piece (p : FlagPiece) (rest out : List Char) :
    scanArgument .unquoted (p.text ++ rest) out = scanArgument .unquoted rest (out ++ p.value) := by
  cases p with
  | plain c h =>
      obtain ⟨hspace, hescape, hsingle, hdouble, -⟩ := h
      simp [FlagPiece.text, FlagPiece.value, scanArgument_cons hescape, hspace, hsingle, hdouble]
  | escaped c h => simp [FlagPiece.text, FlagPiece.value]
  | singleQuoted cs =>
      have hopen : scanArgument .unquoted ('\'' :: (cs.flatMap QuotedChar.text ++ '\'' :: rest)) out
          = scanArgument .single (cs.flatMap QuotedChar.text ++ '\'' :: rest) out := by
        simp [scanArgument_cons, isspace]
      simp only [FlagPiece.text, FlagPiece.value, List.cons_append, List.append_assoc, List.nil_append]
      rw [hopen, scanArgument_quotedChars (.inl ⟨rfl, rfl⟩)]
      simp [scanArgument_cons]
  | doubleQuoted cs =>
      have hopen : scanArgument .unquoted ('"' :: (cs.flatMap QuotedChar.text ++ '"' :: rest)) out
          = scanArgument .double (cs.flatMap QuotedChar.text ++ '"' :: rest) out := by
        simp [scanArgument_cons, isspace]
      simp only [FlagPiece.text, FlagPiece.value, List.cons_append, List.append_assoc, List.nil_append]
      rw [hopen, scanArgument_quotedChars (.inr ⟨rfl, rfl⟩)]
      simp [scanArgument_cons]

theorem scanArgument_pieces (ps : List FlagPiece) (rest out : List Char) :
    scanArgument .unquoted (ps.flatMap FlagPiece.text ++ rest) out
      = scanArgument .unquoted rest (out ++ ps.flatMap FlagPiece.value) := by
  induction ps generalizing out with
  | nil => simp
  | cons p ps ih =>
      rw [List.flatMap_cons, List.append_assoc, scanArgument_piece, ih]
      simp

/-- Outside quotes the scan of an argument stops at white space. -/
theorem scanArgument_stop {rest : List Char} (h : ∀ x ∈ rest.head?, isspace x = true) (out : List Char) :
    scanArgument .unquoted rest out = .value (rest, out) := by
  cases rest with
  | nil => exact scanArgument_nil _ _
  | cons x rest =>
      have hx : isspace x = true := h x rfl
      have hescape : x ≠ '\\' := ne_backslash_of_isspace hx
      simp [scanArgument_cons hescape, hx]

/-- Where an argument ends, the text ends or white space stands. -/
theorem FurtherArguments.head?_text (rest : FurtherArguments) : ∀ x ∈ rest.text.head?, isspace x = true := by
  cases rest with
  | done trail => exact fun x hx => trail.blank x (List.mem_of_mem_head? hx)
  | more sep hsep w rest =>
      intro x hx
      rw [text, List.head?_append_of_ne_nil _ hsep] at hx
      exact sep.blank x (List.mem_of_mem_head? hx)

/-- A written argument is scanned to the argument. -/
theorem scanArgument_written (w : WrittenArgument) (rest : FurtherArguments) (out : List Char) :
    scanArgument .unquoted (w.text ++ rest.text) out = .value (rest.text, out ++ w.value) := by
  rw [WrittenArgument.text, scanArgument_pieces, scanArgument_stop rest.head?_text]
  rfl

/-! ## Scanning them all -/

theorem FlagPiece.exists_text (p : FlagPiece) : ∃ x cs, p.text = x :: cs ∧ isspace x = false := by
  cases p with
  | plain c h => exact ⟨c, [], rfl, h.1⟩
  | escaped c h => exact ⟨'\\', [c], rfl, by decide⟩
  | singleQuoted cs => exact ⟨'\'', _, rfl, by decide⟩
  | doubleQuoted cs => exact ⟨'"', _, rfl, by decide⟩

/-- A written argument is not empty text, and does not start with white space. -/
theorem WrittenArgument.exists_text (w : WrittenArgument) : ∃ x cs, w.text = x :: cs ∧ isspace x = false := by
  obtain ⟨p, ps, hps⟩ := List.exists_cons_of_ne_nil w.nonempty
  obtain ⟨x, cs, hp, hx⟩ := p.exists_text
  exact ⟨x, cs ++ ps.flatMap FlagPiece.text, by rw [text, hps, List.flatMap_cons, hp]; rfl, hx⟩

theorem Blanks.dropWhile_append (b : Blanks) (cs : List Char) :
    (b.chars ++ cs).dropWhile isspace = cs.dropWhile isspace := List.dropWhile_append_of_pos b.blank

theorem Blanks.dropWhile_written (b : Blanks) (w : WrittenArgument) (cs : List Char) :
    (b.chars ++ (w.text ++ cs)).dropWhile isspace = w.text ++ cs := by
  obtain ⟨x, ds, hw, hx⟩ := w.exists_text
  rw [b.dropWhile_append, hw, List.cons_append, List.dropWhile_cons_of_neg (by simp [hx])]

theorem Blanks.dropWhile_self (b : Blanks) : b.chars.dropWhile isspace = [] := by
  have h := b.dropWhile_append []
  rwa [List.append_nil, List.dropWhile_nil] at h

/-- One pass over a written argument. -/
theorem scanPass_written (w : WrittenArgument) (rest : FurtherArguments) (out : List Char) (n : Nat) :
    scanPass ⟨w.text ++ rest.text, out, n⟩
      = .again ⟨rest.text.dropWhile isspace, (out ++ w.value) ++ [nul], n + 1⟩ := by
  have hscan := scanArgument_written w rest out
  obtain ⟨x, cs, hw, -⟩ := w.exists_text
  rw [hw] at hscan ⊢
  simp only [scanPass, List.cons_append] at hscan ⊢
  rw [hscan]

/-- The working space that holds `args`. -/
def pack (args : List (List Char)) : List Char := args.flatMap (· ++ [nul])

theorem pack_cons (a : List Char) (args : List (List Char)) : pack (a :: args) = (a ++ [nul]) ++ pack args := rfl

/-- **The scanner packs the arguments**, from any argument on. -/
theorem scan_further (w : WrittenArgument) (rest : FurtherArguments) (out : List Char) (n : Nat) :
    Loop.Result scanPass ⟨w.text ++ rest.text, out, n⟩
      (.value (n + (rest.arguments.length + 1), out ++ pack (w.value :: rest.arguments))) := by
  induction rest generalizing w out n with
  | done trail =>
      refine .of_again (scanPass_written w _ out n) (.of_leave ?_)
      simp [FurtherArguments.text, FurtherArguments.arguments, trail.dropWhile_self, scanPass, pack]
  | more sep hsep v rest ih =>
      refine .of_again (scanPass_written w _ out n) ?_
      rw [FurtherArguments.text, sep.dropWhile_written]
      have hrest := ih v ((out ++ w.value) ++ [nul]) (n + 1)
      have hcount : n + 1 + (rest.arguments.length + 1) = n + ((v.value :: rest.arguments).length + 1) := by
        simp only [List.length_cons]
        omega
      have hout : out ++ w.value ++ [nul] ++ pack (v.value :: rest.arguments)
          = out ++ pack (w.value :: v.value :: rest.arguments) := by
        rw [pack_cons w.value]
        simp
      rw [hcount, hout] at hrest
      exact hrest

/-- The scanner has enough fuel for any result. -/
theorem parseInternal_of_result {chars : List Char} {r : Read (Nat × List Char)}
    (h : Loop.Result scanPass ⟨chars.dropWhile isspace, [], 0⟩ r) : gxFlagsCommandLineParseInternal chars = some r := by
  obtain ⟨r', hr', -⟩ := parseInternal_spec chars
  rw [hr', h.unique ⟨_, hr'⟩]

theorem parseInternal_text (flags : WrittenFlags) :
    gxFlagsCommandLineParseInternal flags.text = some (.value (flags.arguments.length, pack flags.arguments)) := by
  apply parseInternal_of_result
  cases flags with
  | none blanks =>
      rw [WrittenFlags.text, blanks.dropWhile_self]
      exact .of_leave rfl
  | some lead first rest =>
      rw [WrittenFlags.text, lead.dropWhile_written]
      simpa [WrittenFlags.arguments] using scan_further first rest [] 0

/-! ## The working space -/

/-- **Splitting the working space** gives the arguments that were packed. -/
theorem splitBuffer_pack (args : List (List Char)) (h : ∀ a ∈ args, nul ∉ a) :
    splitBuffer args.length (pack args) = .value args := by
  induction args with
  | nil => rfl
  | cons a args ih =>
      have hkeep : ∀ c ∈ a, decide (c ≠ nul) = true := by
        intro c hc
        simp only [decide_eq_true_eq]
        rintro rfl
        exact h a (List.mem_cons_self ..) hc
      have hbuffer : pack (a :: args) = a ++ (nul :: pack args) := by
        rw [pack_cons, List.append_assoc]
        rfl
      rw [List.length_cons, hbuffer, splitBuffer, List.dropWhile_append_of_pos hkeep,
        List.takeWhile_append_of_pos hkeep, List.dropWhile_cons_of_neg (by simp), List.takeWhile_cons_of_neg (by simp)]
      simp only [ih fun b hb => h b (List.mem_cons_of_mem _ hb), List.append_nil]
      rfl

theorem WrittenFlags.nul_notMem (flags : WrittenFlags) : ∀ a ∈ flags.arguments, nul ∉ a := by
  cases flags with
  | none => simp [arguments]
  | some lead first rest => simpa [arguments] using ⟨first.nul_notMem_value, rest.nul_notMem⟩

/-- **Flag splitting inverts quoting.** However a list of arguments is written, splitting the string gives their
number and each of them. -/
theorem commandLineParse_text (flags : WrittenFlags) :
    gxFlags_CommandLineParse flags.text = some (.value (flags.arguments.length, flags.arguments)) := by
  rw [gxFlags_CommandLineParse, parseInternal_text]
  simp only [Option.map_some, Read.bind, splitBuffer_pack _ flags.nul_notMem, Read.map]

/-! ## Every list can be written -/

/-- An argument in single quotes, each character escaped. -/
def WrittenArgument.escapeAll (a : List Char) (h : nul ∉ a) : WrittenArgument where
  pieces := [.singleQuoted (a.attach.map fun c => .escaped c.1 fun he => h (he ▸ c.2))]
  nonempty := List.cons_ne_nil _ _

theorem WrittenArgument.value_escapeAll (a : List Char) (h : nul ∉ a) : (escapeAll a h).value = a := by
  simp [escapeAll, value, FlagPiece.value, List.map_map, Function.comp_def, QuotedChar.value]

/-- Every list of arguments without a NUL is written by some string of flags. -/
theorem exists_writtenFlags (args : List (List Char)) (h : ∀ a ∈ args, nul ∉ a) :
    ∃ flags : WrittenFlags, flags.arguments = args := by
  have hfurther : ∀ args : List (List Char), (∀ a ∈ args, nul ∉ a) →
      ∃ rest : FurtherArguments, rest.arguments = args := by
    intro args hargs
    induction args with
    | nil => exact ⟨.done ⟨[], by simp⟩, rfl⟩
    | cons a args ih =>
        obtain ⟨rest, hrest⟩ := ih fun b hb => hargs b (List.mem_cons_of_mem _ hb)
        refine ⟨.more ⟨[' '], List.all_eq_true.mp (by decide)⟩ (List.cons_ne_nil _ _)
          (WrittenArgument.escapeAll a (hargs a (List.mem_cons_self ..))) rest, ?_⟩
        rw [FurtherArguments.arguments, WrittenArgument.value_escapeAll, hrest]
  cases args with
  | nil => exact ⟨.none ⟨[], by simp⟩, rfl⟩
  | cons a args =>
      obtain ⟨rest, hrest⟩ := hfurther args fun b hb => h b (List.mem_cons_of_mem _ hb)
      refine ⟨.some ⟨[], by simp⟩ (WrittenArgument.escapeAll a (h a (List.mem_cons_self ..))) rest, ?_⟩
      rw [WrittenFlags.arguments, WrittenArgument.value_escapeAll, hrest]

end GccXml
