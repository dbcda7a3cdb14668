import GccXml.Front.ScannedText

namespace GccXml

/-! # `Front.QuotedFlags` — flags found in a text that was written without escapes

A flag is written as plain characters and a text between quotation marks, in which nothing is escaped. It is read back
if the text holds neither that mark nor a backslash. It is read back only then, and no other place of the text makes up
for it: an argument that is found behind the place where it was written leaves every later one behind its place too,
and the last one is not found at all.

That a literal flag is read back is a computation. The other direction is the argument of the module, since what is
found is only asked to contain the expected arguments in order, and an argument that is not found where it was written
might be found later, in pieces of other flags. `Behind rest next` says that what is left to read is a suffix of the
text that should be left. To find an argument the reader takes at least as many characters as it has, and a fair item
is written with no more than that or with its own argument in it; so a reader that is behind stays behind, whatever it
finds.

The last expected argument is a flag with a character that nothing after it has. A reader that is behind it has passed
this character and does not find the flag any more. So every flag was read in its place, and was literal. -/

/-! ## One flag -/

/-- A flag as it is written: plain characters, and then a text between quotation marks. -/
structure QuotedFlag where
  lead : List Char
  quoted : Quoted
  quote : Char
  content : List Char
  opened : quoted.OpenedBy quote
  plain : ∀ c ∈ lead, IsPlain c
  long : 2 ≤ lead.length
  noNul : nul ∉ content

namespace QuotedFlag

variable (f : QuotedFlag)

def text : List Char := f.lead ++ (f.quote :: (f.content ++ [f.quote]))

/-- The argument that is meant. -/
def value : List Char := f.lead ++ f.content

/-- Between the quotation marks every character stands for itself. -/
def Literal : Prop := ∀ c ∈ f.content, c ≠ f.quote ∧ c ≠ '\\'

instance : Decidable f.Literal := inferInstanceAs (Decidable (∀ c ∈ f.content, _))

theorem length_text : f.text.length = f.value.length + 2 := by
  simp only [text, value, List.length_append, List.length_cons, List.length_nil]
  omega

theorem quote_ne_blank : f.quote ≠ ' ' := by
  rintro h
  simpa [h] using f.opened.isMark

theorem plain_unmarked : ∀ c ∈ f.lead, c ≠ '\\' ∧ Quoted.unquoted.behind c = none := by
  intro c hc
  obtain ⟨-, hescape, hsingle, hdouble, -⟩ := f.plain c hc
  exact ⟨hescape, Quoted.behind_eq_none hsingle hdouble _⟩

/-- What is stored from a quoted text as if it had been written plainly was written plainly. -/
theorem literal_of_scanned {quoted : Quoted} {quote : Char} (hopen : quoted.OpenedBy quote) {text content : List Char}
    (h : Scanned quoted text content) (hstart : text <+: content ++ [quote]) :
    ∀ c ∈ content, c ≠ quote ∧ c ≠ '\\' := by
  induction content generalizing text with
  | nil => simp
  | cons x content ih =>
      have hlen := h.length_le
      have hlen' := hstart.length_le
      cases text with
      | nil => simp at hlen
      | cons y text =>
          obtain ⟨rfl, hrest⟩ := List.cons_prefix_cons.mp hstart
          simp only [List.length_cons, List.length_append, List.length_nil] at hlen hlen'
          by_cases hquote : y = quote
          · -- the mark closes, and the one at the end would open again
            subst hquote
            obtain ⟨rfl, hnone⟩ := (h.mark_inv hopen.behind_eq).eq_of_length (by simp only [List.length_cons]; omega)
            exact absurd (hnone y List.mem_cons_self) (Quoted.behind_unquoted_ne_none hopen.isMark)
          by_cases hescape : y = '\\'
          · -- the backslash goes, and another one had to follow, up to the mark
            subst hescape
            obtain ⟨d, ds, stored, rfl, hstored, hds⟩ := h.escape_inv
            obtain ⟨rfl, rfl⟩ := List.cons.inj hstored
            simp only [List.length_cons] at hlen hlen'
            obtain ⟨rfl, hnone⟩ := hds.eq_of_length (by omega)
            have hall := hrest.eq_of_length (by simp)
            have hmem : quote ∈ '\\' :: ds := hall ▸ List.mem_append_right ds List.mem_cons_self
            obtain hbackslash | hmem := List.mem_cons.mp hmem
            · exact absurd hbackslash.symm hquote
            · have hmark := hnone quote hmem
              rw [hopen.behind_eq] at hmark
              cases hmark
          · -- any other character is stored as it is, and the rest of the flag follows
            have hplain := hopen.behind_eq_none hquote
            obtain ⟨stored, hstored, hscan⟩ := h.char_inv hescape hplain
            obtain ⟨-, rfl⟩ := List.cons.inj hstored
            exact List.forall_mem_cons.mpr ⟨⟨hquote, hescape⟩, ih hscan hrest⟩

/-- **A flag that is not literal is not read back in its place.** -/
theorem literal_of_scanned_value {taken tail : List Char} (hscan : Scanned .unquoted taken f.value)
    (hover : taken <+: f.text ++ tail) (htail : ∀ x ∈ tail.head?, x = ' ') : f.Literal := by
  -- the blank behind the flag was not read, as it would have been stored
  have hinside : taken <+: f.text := by
    refine List.prefix_of_prefix_length_le hover (List.prefix_append _ _) ?_
    by_contra hlong
    obtain ⟨more, hmore⟩ := List.prefix_of_prefix_length_le (List.prefix_append f.text tail) hover (by omega)
    rw [← hmore, List.prefix_append_right_inj] at hover
    cases more with
    | nil => simp [← hmore] at hlong
    | cons x more =>
        obtain ⟨rest, rfl⟩ := hover
        obtain rfl := htail x rfl
        have hcount := hscan.count_blank
        rw [← hmore] at hcount
        simp only [value, text, List.count_append, List.count_cons_of_ne f.quote_ne_blank, List.count_cons_self,
          List.count_nil] at hcount
        omega
  have hlen := hscan.length_le
  obtain ⟨inner, rfl⟩ : f.lead <+: taken := by
    refine List.prefix_of_prefix_length_le (List.prefix_append _ _) hinside ?_
    simp only [value, List.length_append] at hlen
    omega
  rw [text, List.prefix_append_right_inj] at hinside
  obtain ⟨stored, hstored, hinner⟩ := hscan.plain_inv f.plain_unmarked
  obtain rfl := List.append_cancel_left hstored
  cases inner with
  | nil =>
      have hnil := hinner.length_le
      simp only [List.length_nil, Nat.le_zero, List.length_eq_zero_iff] at hnil
      simp [Literal, hnil]
  | cons x inner =>
      obtain ⟨rfl, hcontent⟩ := List.cons_prefix_cons.mp hinside
      exact literal_of_scanned f.opened (hinner.mark_inv f.opened.unquoted_behind) hcontent

/-- A literal flag is a written argument. -/
theorem exists_written (h : f.Literal) : ∃ w : WrittenArgument, w.text = f.text ∧ w.value = f.value := by
  have hlead : ∃ ps : List FlagPiece, ps.flatMap FlagPiece.text = f.lead ∧ ps.flatMap FlagPiece.value = f.lead := by
    refine ⟨f.lead.attach.map fun c => .plain c.1 (f.plain c.1 c.2), ?_, ?_⟩ <;>
      simp [List.flatMap_map, FlagPiece.text, FlagPiece.value]
  have hquoted : ∃ p : FlagPiece, p.text = f.quote :: (f.content ++ [f.quote]) ∧ p.value = f.content := by
    have hchar : ∀ c ∈ f.content, c ≠ f.quote ∧ c ≠ '\\' ∧ c ≠ nul := by
      intro c hc
      exact ⟨(h c hc).1, (h c hc).2, fun he => f.noNul (he ▸ hc)⟩
    rcases f.opened with ⟨-, hquote⟩ | ⟨-, hquote⟩ <;> rw [hquote] at hchar ⊢
    · refine ⟨.singleQuoted (f.content.attach.map fun c => .literal c.1 (hchar c.1 c.2)), ?_, ?_⟩ <;>
        simp [FlagPiece.text, FlagPiece.value, List.flatMap_map, QuotedChar.text, Function.comp_def, QuotedChar.value]
    · refine ⟨.doubleQuoted (f.content.attach.map fun c => .literal c.1 (hchar c.1 c.2)), ?_, ?_⟩ <;>
        simp [FlagPiece.text, FlagPiece.value, List.flatMap_map, QuotedChar.text, Function.comp_def, QuotedChar.value]
  obtain ⟨ps, hps, hvalue⟩ := hlead
  obtain ⟨p, hp, hpvalue⟩ := hquoted
  refine ⟨⟨ps ++ [p], by simp⟩, ?_, ?_⟩
  · rw [WrittenArgument.text, List.flatMap_append, hps, List.flatMap_singleton, hp, text]
  · rw [WrittenArgument.value, List.flatMap_append, hvalue, List.flatMap_singleton, hpvalue, value]

theorem exists_lead : ∃ c lead, f.lead = c :: lead ∧ isspace c = false := by
  obtain ⟨c, lead, hlead⟩ := List.exists_cons_of_length_pos (Nat.lt_of_lt_of_le Nat.two_pos f.long)
  exact ⟨c, lead, hlead, (f.plain c (by simp [hlead])).1⟩

theorem dropWhile_text_append (rest : List Char) : (f.text ++ rest).dropWhile isspace = f.text ++ rest := by
  obtain ⟨c, lead, hlead, hc⟩ := f.exists_lead
  rw [text, hlead]
  exact List.dropWhile_cons_of_neg (by simp [hc])

/-- **A literal flag is read back in its place.** -/
theorem exists_of_splits (h : f.Literal) {rest : List Char} (hrest : AtArgumentEnd rest) {args : List (List Char)}
    (hs : Splits (f.text ++ rest) args) : ∃ args', args = f.value :: args' ∧ Splits rest args' := by
  obtain ⟨w, htext, hvalue⟩ := f.exists_written h
  have hscan : scanArgument .unquoted (f.text ++ rest) [] = .value (rest, f.value) := by
    rw [← htext, WrittenArgument.text, scanArgument_pieces, scanArgument_stop hrest, List.nil_append, ← hvalue]
    rfl
  have hdrop := f.dropWhile_text_append rest
  cases hs with
  | done hnil =>
      obtain ⟨c, lead, hlead, -⟩ := f.exists_lead
      rw [hdrop, text, hlead] at hnil
      cases hnil
  | argument hne hscan' hs' =>
      rw [hdrop, hscan] at hscan'
      obtain ⟨rfl, rfl⟩ := Prod.mk.inj (Read.value.inj hscan')
      exact ⟨_, rfl, hs'⟩

end QuotedFlag

/-! ## Being behind -/

/-- An argument that is expected, and the flag that was written for it if one was. -/
structure FlagItem where
  expected : List Char
  written : Option QuotedFlag

namespace FlagItem

/-- The text of the flag and the blank behind it. -/
def text (i : FlagItem) : List Char := i.written.elim [] fun f => f.text ++ [' ']

/-- The flag says what is expected, or is far shorter. -/
def Fair (i : FlagItem) : Prop := (∃ f, i.written = some f ∧ f.value = i.expected) ∨ i.text.length ≤ i.expected.length

/-- The flag says what is expected, and is literal. -/
def ReadBack (i : FlagItem) : Prop := ∃ f, i.written = some f ∧ f.value = i.expected ∧ f.Literal

end FlagItem

theorem AtArgumentEnd.suffix_of_plain {rest lead next : List Char} (hrest : AtArgumentEnd rest)
    (hlead : ∀ c ∈ lead, isspace c = false) (h : rest <:+ lead ++ next) : rest <:+ next := by
  induction lead with
  | nil => exact h
  | cons c lead ih =>
      rw [List.forall_mem_cons] at hlead
      rw [List.cons_append, List.suffix_cons_iff] at h
      obtain rfl | h := h
      · have hc := hrest c rfl
        rw [hlead.1] at hc
        cases hc
      · exact ih hlead.2 h

theorem AtArgumentEnd.length_dropWhile_lt {rest : List Char} (hrest : AtArgumentEnd rest) (hne : rest ≠ []) :
    (rest.dropWhile isspace).length < rest.length := by
  obtain ⟨c, cs, rfl⟩ := List.exists_cons_of_ne_nil hne
  rw [List.dropWhile_cons_of_pos (hrest c rfl)]
  exact Nat.lt_succ_of_le (Splits.dropWhile_suffix cs).length_le

/-- A text is behind `next` if it is a suffix of it that starts where an argument can end. -/
structure Behind (rest next : List Char) : Prop where
  suffix : rest <:+ next
  atBreak : AtArgumentEnd rest

/-- **An expected argument that is found late leaves the next one late.** -/
theorem Behind.step {i : FlagItem} (hi : i.Fair) {rest next : List Char} (hbehind : Behind rest (i.text ++ next))
    {args es : List (List Char)} (h : Splits rest args) (hs : (i.expected :: es).Sublist args) :
    ∃ rest' args', Splits rest' args' ∧ es.Sublist args' ∧ Behind rest' next := by
  obtain ⟨rest', args', h', hs', hbreak, hsuffix, hlen⟩ := h.exists_rest_of_sublist hs
  refine ⟨rest', args', h', hs', List.suffix_of_suffix_length_le (hsuffix.trans hbehind.suffix)
    (List.suffix_append i.text next) ?_, hbreak⟩
  have hne : rest ≠ [] := by
    rintro rfl
    cases h with
    | done => cases hs
    | argument hne => exact absurd rfl hne
  have hdrop := hbehind.atBreak.length_dropWhile_lt hne
  rcases hi with ⟨f, hf, hvalue⟩ | hshort
  · have htext : i.text ++ next = f.lead ++ (f.quote :: (f.content ++ [f.quote]) ++ ' ' :: next) := by
      simp [FlagItem.text, hf, QuotedFlag.text]
    have hinner := hbehind.atBreak.suffix_of_plain (fun c hc => (f.plain c hc).1) (htext ▸ hbehind.suffix)
    have hle := hinner.length_le
    have hlong := f.long
    rw [← hvalue, QuotedFlag.value, List.length_append] at hlen
    simp only [List.length_append, List.length_cons, List.length_nil] at hle
    omega
  · have hle := hbehind.suffix.length_le
    rw [List.length_append] at hle
    omega

/-- What is written for a list of arguments and for what follows. -/
def itemsText (items : List FlagItem) (next : List Char) : List Char := items.flatMap FlagItem.text ++ next

theorem itemsText_cons (i : FlagItem) (items : List FlagItem) (next : List Char) :
    itemsText (i :: items) next = i.text ++ itemsText items next := by
  rw [itemsText, List.flatMap_cons, List.append_assoc, itemsText]

/-- The run of such steps. -/
theorem Behind.run {items : List FlagItem} (hitems : ∀ i ∈ items, i.Fair) {rest next : List Char}
    (hbehind : Behind rest (itemsText items next)) {args es : List (List Char)} (h : Splits rest args)
    (hs : (items.map FlagItem.expected ++ es).Sublist args) :
    ∃ rest' args', Splits rest' args' ∧ es.Sublist args' ∧ Behind rest' next := by
  induction items generalizing rest args with
  | nil => exact ⟨rest, args, h, hs, hbehind⟩
  | cons i items ih =>
      rw [List.forall_mem_cons] at hitems
      rw [itemsText_cons] at hbehind
      obtain ⟨rest', args', h', hs', hbehind'⟩ := hbehind.step hitems.1 h hs
      exact ih hitems.2 hbehind' h' hs'

/-- A last flag that is marked by a character which is missing in what follows is not found behind its place. -/
theorem Behind.not_mem_last {f : QuotedFlag} {tail : List Char} {z : Char} (hz : z ∈ f.lead) (htail : z ∉ tail)
    {rest : List Char} (hbehind : Behind rest (f.text ++ tail)) {args : List (List Char)} (h : Splits rest args) :
    f.value ∉ args := by
  intro hmem
  rw [QuotedFlag.text, List.append_assoc] at hbehind
  have hinner := hbehind.atBreak.suffix_of_plain (fun c hc => (f.plain c hc).1) hbehind.suffix
  have hne : f.quote ≠ z := by
    rintro rfl
    obtain ⟨-, -, hsingle, hdouble, -⟩ := f.plain _ hz
    exact f.opened.isMark.elim hsingle hdouble
  have hcount := ((h.sublist _ hmem).trans hinner.sublist).count_le z
  have hlead := List.count_pos_iff.mpr hz
  have htail' := List.count_eq_zero.mpr htail
  simp only [QuotedFlag.value, List.count_append, List.cons_append, List.append_assoc, List.nil_append,
    List.count_cons_of_ne hne] at hcount
  omega

/-! ## All flags -/

/-- Behind a flag that is not literal, every argument from its own on is late. -/
theorem QuotedFlag.literal_or_behind (f : QuotedFlag) {rest : List Char} (hrest : ∀ x ∈ rest.head?, x = ' ')
    {args es : List (List Char)} (h : Splits (f.text ++ rest) args) (hs : (f.value :: es).Sublist args) :
    f.Literal ∨ ∃ rest' args', Splits rest' args' ∧ (f.value :: es).Sublist args' ∧ Behind rest' (f.text ++ rest) := by
  cases args with
  | nil => cases hs
  | cons a args =>
      obtain ⟨taken, rest', htext, hscan, hbreak, hrest'⟩ := h.cons_inv
      rw [f.dropWhile_text_append] at htext
      by_cases ha : a = f.value
      · subst ha
        exact .inl (f.literal_of_scanned_value hscan (htext ▸ List.prefix_append taken rest') hrest)
      · refine .inr ⟨rest', args, hrest', ?_, htext ▸ List.suffix_append taken rest', hbreak⟩
        cases hs with
        | cons _ hs => exact hs
        | cons_cons _ hs => exact absurd rfl ha

/-- **Every flag must be read back in its place.** If the expected arguments are found in order, the last one being a
flag that is marked by a character missing in the rest of the text, then each flag was written as expected, and
literally. -/
theorem readBack_of_sublist {items : List FlagItem} (hitems : ∀ i ∈ items, i.Fair) {last : QuotedFlag}
    {tail : List Char} {z : Char} (hz : z ∈ last.lead) (hztail : z ∉ tail) (htail : ∀ x ∈ tail.head?, x = ' ')
    {args : List (List Char)} (h : Splits (itemsText items (last.text ++ tail)) args)
    (hs : (items.map FlagItem.expected ++ [last.value]).Sublist args) :
    (∀ i ∈ items, i.ReadBack) ∧ last.Literal := by
  -- once an argument is late, the last one is not found
  have hlate : ∀ items : List FlagItem, (∀ i ∈ items, i.Fair) → ∀ rest args, Splits rest args →
      Behind rest (itemsText items (last.text ++ tail)) →
      ¬ (items.map FlagItem.expected ++ [last.value]).Sublist args := by
    intro items hitems rest args h hbehind hs
    obtain ⟨rest', args', h', hs', hbehind'⟩ := hbehind.run hitems h hs
    exact hbehind'.not_mem_last hz hztail h' (hs'.subset List.mem_cons_self)
  induction items generalizing args with
  | nil =>
      rcases last.literal_or_behind htail h hs with hlit | ⟨rest', args', h', hs', hbehind⟩
      · exact ⟨by simp, hlit⟩
      · exact absurd hs' (hlate [] (by simp) rest' args' h' hbehind)
  | cons i items ih =>
      have hall := hitems
      rw [List.forall_mem_cons] at hitems
      rw [itemsText_cons] at h
      rcases hitems.1 with ⟨f, hf, hvalue⟩ | hshort
      · have htext : i.text ++ itemsText items (last.text ++ tail) =
            f.text ++ (' ' :: itemsText items (last.text ++ tail)) := by
          simp [FlagItem.text, hf]
        rw [htext] at h
        rw [List.map_cons, ← hvalue] at hs
        rcases f.literal_or_behind (by simp) h hs with hlit | ⟨rest', args', h', hs', hbehind⟩
        · obtain ⟨args', rfl, h'⟩ := f.exists_of_splits hlit (by simp [AtArgumentEnd, isspace]) h
          rw [← splits_iff_dropWhile, List.dropWhile_cons_of_pos (by decide), splits_iff_dropWhile] at h'
          obtain ⟨hrest, hlast⟩ := ih hitems.2 h' (List.cons_sublist_cons.mp hs)
          exact ⟨List.forall_mem_cons.mpr ⟨⟨f, hf, hvalue, hlit⟩, hrest⟩, hlast⟩
        · rw [← htext, ← itemsText_cons] at hbehind
          rw [hvalue] at hs'
          exact absurd hs' (hlate (i :: items) hall rest' args' h' hbehind)
      · -- the text is too short for what is expected, so what follows is late
        obtain ⟨rest', args', h', hs', hbreak, hsuffix, hlen⟩ := h.exists_rest_of_sublist hs
        refine absurd hs' (hlate items hitems.2 rest' args' h' ⟨?_, hbreak⟩)
        refine List.suffix_of_suffix_length_le hsuffix (List.suffix_append i.text _) ?_
        have hdrop := (Splits.dropWhile_suffix (i.text ++ itemsText items (last.text ++ tail))).length_le
        rw [List.length_append] at hdrop
        omega

/-- One blank. -/
def Blanks.space : Blanks := ⟨[' '], List.forall_mem_singleton.mpr rfl⟩

/-- A literal flag and then the last one, which stand behind a blank. -/
theorem exists_further_items {items : List FlagItem} (hitems : ∀ i ∈ items, i.ReadBack) {last : QuotedFlag}
    (hlast : last.Literal) (rest : FurtherArguments) :
    ∃ rest' : FurtherArguments, rest'.text = ' ' :: itemsText items (last.text ++ rest.text) ∧
      rest'.arguments = items.map FlagItem.expected ++ last.value :: rest.arguments := by
  have hspace : Blanks.space.chars ≠ [] := List.cons_ne_nil _ _
  induction items with
  | nil =>
      obtain ⟨w, htext, hvalue⟩ := last.exists_written hlast
      refine ⟨.more .space hspace w rest, ?_, ?_⟩
      · rw [FurtherArguments.text, htext]
        rfl
      · rw [FurtherArguments.arguments, hvalue]
        rfl
  | cons i items ih =>
      rw [List.forall_mem_cons] at hitems
      obtain ⟨f, hf, hexpected, hlit⟩ := hitems.1
      obtain ⟨rest', htext', hargs'⟩ := ih hitems.2
      obtain ⟨w, htext, hvalue⟩ := f.exists_written hlit
      refine ⟨.more .space hspace w rest', ?_, ?_⟩
      · rw [FurtherArguments.text, htext, htext', itemsText_cons]
        simp [FlagItem.text, hf, Blanks.space]
      · rw [FurtherArguments.arguments, hvalue, hexpected, hargs']
        rfl

/-- **Flags that are all literal are a text as it can be written.** -/
theorem exists_written_items {items : List FlagItem} (hitems : ∀ i ∈ items, i.ReadBack) {last : QuotedFlag}
    (hlast : last.Literal) (rest : FurtherArguments) :
    ∃ flags : WrittenFlags, flags.text = itemsText items (last.text ++ rest.text) ∧
      flags.arguments = items.map FlagItem.expected ++ last.value :: rest.arguments := by
  cases items with
  | nil =>
      obtain ⟨w, htext, hvalue⟩ := last.exists_written hlast
      refine ⟨.some ⟨[], by simp⟩ w rest, ?_, ?_⟩
      · rw [WrittenFlags.text, htext]
        rfl
      · rw [WrittenFlags.arguments, hvalue]
        rfl
  | cons i items =>
      rw [List.forall_mem_cons] at hitems
      obtain ⟨f, hf, hexpected, hlit⟩ := hitems.1
      obtain ⟨rest', htext', hargs'⟩ := exists_further_items hitems.2 hlast rest
      obtain ⟨w, htext, hvalue⟩ := f.exists_written hlit
      refine ⟨.some ⟨[], by simp⟩ w rest', ?_, ?_⟩
      · rw [WrittenFlags.text, htext, htext', itemsText_cons]
        simp [FlagItem.text, hf]
      · rw [WrittenFlags.arguments, hvalue, hexpected, hargs']
        rfl

end GccXml
