import GccXml.Lib.Pieces
import GccXml.Xml.Elements
import Mathlib.Tactic.Ring

namespace GccXml

variable {Node : Type} [DecidableEq Node] {tu : TranslationUnit Node}

/-! # `Xml.Numbers` — the numbers in the output

A constant of the compiler is a pair of words, and what is printed of it passes through an `int`, a `%d` or an
`unsigned HOST_WIDE_INT`. The number printed is that of the constant exactly when it fits there.

The value of an `IntCst` is a number, with the words as its low and high part, and the narrow types are intervals.
Reading a word as an `int` takes a number modulo a power of two into the interval, so it keeps the number exactly if
that is in the interval; both directions of the theorems come from this one fact about the low word. For an enumerator
that is not an `INTEGER_CST` an `Unimplemented` element is printed, which has no value.

The offset of a field is computed from two constants, a number of bytes and a number of bits behind them, if
`host_integerp` accepts both; otherwise the attribute is left out. For a base class there is one constant, an assertion
that it can be read, and a `%d`. The units of the examples have a number just outside of an `int`. -/

/-! ## Constants -/

/-- The value of an `INTEGER_CST` of two words of `bits` bits. -/
def IntCst.value (bits : Nat) (c : IntCst) : Int := c.high * 2 ^ bits + c.low

/-- A value that an `int` of 32 bits can hold. -/
def FitsInt (v : Int) : Prop := -2 ^ 31 ≤ v ∧ v < 2 ^ 31

instance (v : Int) : Decidable (FitsInt v) := inferInstanceAs (Decidable (_ ∧ _))

theorem asInt_eq_bmod (low : Nat) : asInt low = Int.bmod low 4294967296 := rfl

theorem fitsInt_asInt (low : Nat) : FitsInt (asInt low) := by
  have hle := Int.le_bmod (x := low) (m := 4294967296) (by decide)
  have hlt := Int.bmod_lt (x := low) (m := 4294967296) (by decide)
  rw [asInt_eq_bmod]
  constructor
  · simpa using hle
  · simpa using hlt

theorem bmod_eq_of_fitsInt {v : Int} (h : FitsInt v) : Int.bmod v 4294967296 = v := by
  obtain ⟨hle, hlt⟩ := h
  exact Int.bmod_eq_of_le (by simpa using hle) (by simpa using hlt)

/-- **Through an `int`.** The low word of a constant, read as an `int`, is its value exactly when an `int` can hold the
value. -/
theorem asInt_low_eq_iff {bits : Nat} (hbits : 32 ≤ bits) (c : IntCst) :
    asInt c.low = c.value bits ↔ FitsInt (c.value bits) := by
  constructor
  · intro h
    rw [← h]
    exact fitsInt_asInt c.low
  · intro h
    have hpow : (2 : Int) ^ bits = 2 ^ (bits - 32) * 4294967296 := by
      have hsplit : bits = (bits - 32) + 32 := by omega
      conv_lhs => rw [hsplit]
      rw [pow_add]
      norm_num
    have hvalue : c.value bits = c.low + c.high * 2 ^ (bits - 32) * (4294967296 : Nat) := by
      rw [IntCst.value, hpow, Nat.cast_ofNat]
      ring
    calc asInt c.low = Int.bmod (c.value bits) 4294967296 := by
          rw [hvalue, Int.add_mul_bmod_self_right, asInt_eq_bmod]
      _ = c.value bits := bmod_eq_of_fitsInt h

/-! ## Enumerators -/

variable (tu) in
/-- The child for an enumerator, with the exact value of its constant. -/
def exactEnumValue (tv : Option String × Node) : SymChild Node :=
  if tu.treeCode tv.2 = .integerCst then
    { indent := 4
      element := ⟨"EnumValue", [("name", [.str (xmlGetEncodedString tv.1)]),
        ("init", [.num ((tu.tree tv.2).intCst.value tu.hostBitsPerWideInt)])]⟩ }
  else enumValueChild tu tv

variable (tu) in
/-- **The values are exact**: `xml_output_enumeral_type` prints one child for each enumerator, in the order of the
declaration, and where the value is an `INTEGER_CST` this is an `EnumValue` with its name and its value. -/
def EnumValuesExact (t : Node) : Prop :=
  fragsOf (xmlOutputEnumeralType tu t) = Entry.frags ⟨⟨"Enumeration", attrsOf (enumeralTypeAttributes tu t)⟩,
    some ((tu.tree t).typeValues.map (exactEnumValue tu))⟩

omit [DecidableEq Node] in
theorem enumValueChild_integerCst {tv : Option String × Node} (hcode : tu.treeCode tv.2 = .integerCst) :
    enumValueChild tu tv = { indent := 4, element := ⟨"EnumValue", [("name", [.str (xmlGetEncodedString tv.1)]),
      ("init", [.num (asInt (tu.tree tv.2).intCst.low)])]⟩ } := by
  rw [enumValueChild, if_pos hcode]
  rfl

omit [DecidableEq Node] in
theorem enumValueChild_frags_eq_iff (hbits : 32 ≤ tu.hostBitsPerWideInt) (tv : Option String × Node) :
    (enumValueChild tu tv).frags = (exactEnumValue tu tv).frags ↔
      (tu.treeCode tv.2 = .integerCst → FitsInt ((tu.tree tv.2).intCst.value tu.hostBitsPerWideInt)) := by
  unfold exactEnumValue
  by_cases hcode : tu.treeCode tv.2 = .integerCst
  · rw [if_pos hcode, enumValueChild_integerCst hcode, ← asInt_low_eq_iff hbits]
    simp [Child.frags, Element.openFrags, Frag.ofAttr, hcode]
  · rw [if_neg hcode]
    exact iff_of_true rfl fun h => absurd h hcode

theorem enumValuesExact_iff_children (t : Node) :
    EnumValuesExact tu t ↔
      (tu.tree t).typeValues.flatMap (fun tv => (enumValueChild tu tv).frags) =
        (tu.tree t).typeValues.flatMap (fun tv => (exactEnumValue tu tv).frags) := by
  unfold EnumValuesExact
  rw [fragsOf_xmlOutputEnumeralType]
  simp [Entry.frags, List.flatMap_map]

/-- **When the values of an enumeration are exact.** The `EnumValue` elements have the values of the enumerators if and
only if an `int` can hold the value of every enumerator that is an `INTEGER_CST`. -/
theorem enumValuesExact_iff (hbits : 32 ≤ tu.hostBitsPerWideInt) (t : Node) :
    EnumValuesExact tu t ↔ ∀ tv ∈ (tu.tree t).typeValues, tu.treeCode tv.2 = .integerCst →
      FitsInt ((tu.tree tv.2).intCst.value tu.hostBitsPerWideInt) := by
  have hlength : ∀ tv, (exactEnumValue tu tv).frags.length ≤ (enumValueChild tu tv).frags.length := by
    intro tv
    unfold exactEnumValue
    split
    · next hcode =>
        rw [enumValueChild_integerCst hcode]
        simp [Child.frags, Element.openFrags]
    · exact Nat.le_refl _
  rw [enumValuesExact_iff_children, flatMap_eq_iff fun tv _ => hlength tv]
  exact forall₂_congr fun tv _ => enumValueChild_frags_eq_iff hbits tv

/-! ### An enumerator that an `int` cannot hold

The unit is `enum E { A = 2147483648 };`. -/

/-- The nodes of the example: the global namespace, the enumeration `E`, its declaration and the value of `A`. -/
inductive WideEnumerationNode
  | globalNamespace | e | declE | a
  deriving DecidableEq

/-- The unit, with its nodes in the order of their addresses. -/
def wideEnumeration : TranslationUnit WideEnumerationNode where
  globalNamespace := .globalNamespace
  tree
    | .globalNamespace => { code := .namespaceDecl, declName := some "::" }
    | .e => { code := .enumeralType, typeName := some .declE, typeValues := [(some "A", .a)] }
    | .declE => { code := .typeDecl, declName := some "E", declContext := some .globalNamespace, treeType := some .e
                  declSourceFile := "a.h" }
    | .a => { code := .integerCst, intCst := { low := 2147483648 } }
  nodes := [.globalNamespace, .e, .declE, .a]
  mem_nodes n := by cases n <;> decide
  address
    | .globalNamespace => 0
    | .e => 1
    | .declE => 2
    | .a => 3
  nodes_sorted := by decide
  rank
    | .declE => 1
    | _ => 0
  rank_lt n := by cases n <;> decide

theorem hostBits_wideEnumeration : 32 ≤ wideEnumeration.hostBitsPerWideInt := by
  show 32 ≤ 64
  omega

/-- The values of `E` are exact if and only if an `int` can hold that of `A`. -/
theorem enumValuesExact_iff_wideEnumeration :
    EnumValuesExact wideEnumeration .e ↔ ∀ tv ∈ (wideEnumeration.tree .e).typeValues,
      wideEnumeration.treeCode tv.2 = .integerCst →
        FitsInt ((wideEnumeration.tree tv.2).intCst.value wideEnumeration.hostBitsPerWideInt) :=
  enumValuesExact_iff hostBits_wideEnumeration .e

/-- The value of `A` is printed as a negative number. -/
theorem not_enumValuesExact_wideEnumeration :
    attrsOf (enumValueAttributes wideEnumeration (some "A") .a) =
        [("name", [.str (xmlGetEncodedString (some "A"))]), ("init", [.num (-2147483648)])] ∧
      (wideEnumeration.tree .a).intCst.value wideEnumeration.hostBitsPerWideInt = 2147483648 ∧
      ¬ EnumValuesExact wideEnumeration .e := by
  have hvalue : (wideEnumeration.tree .a).intCst.value wideEnumeration.hostBitsPerWideInt = 2147483648 := by
    show (0 : Int) * 2 ^ 64 + (2147483648 : Nat) = 2147483648
    norm_num
  refine ⟨?_, hvalue, ?_⟩
  · have hint : asInt 2147483648 = -2147483648 := by
      rw [asInt_eq_bmod]
      decide
    rw [← hint]
    rfl
  · have hsingle : (wideEnumeration.tree .e).typeValues = [(some "A", .a)] := rfl
    rw [enumValuesExact_iff_children, hsingle, List.flatMap_singleton, List.flatMap_singleton,
      enumValueChild_frags_eq_iff hostBits_wideEnumeration]
    intro h
    have hfits := h rfl
    rw [hvalue] at hfits
    exact absurd hfits.2 (by decide)

/-! ## Offsets -/

/-- `host_integerp (t, 0)`, which `tree_low_cst (t, 0)` asserts, for a constant of a type that is unsigned or not. -/
def IntCst.hostIntegerpAny (bits : Nat) (typeUnsigned : Bool) (c : IntCst) : Bool :=
  (c.high = 0 ∧ c.low < 2 ^ (bits - 1)) ∨ (c.high = -1 ∧ 2 ^ (bits - 1) ≤ c.low ∧ !typeUnsigned)

variable (tu) in
/-- The offset of the field `d` in bits, from its offset in bytes and the bits behind it. -/
def fieldOffset (byteOfs bitOfs : IntCst) : Int :=
  8 * byteOfs.value tu.hostBitsPerWideInt + bitOfs.value tu.hostBitsPerWideInt

variable (tu) in
/-- **The offset of a field is exact or absent**, when `host_integerp` accepts both of its parts. It is absent only if
an `unsigned HOST_WIDE_INT` cannot hold it. -/
def FieldOffsetExact (d : Node) : Prop :=
  ∀ byteOfs bitOfs, (tu.tree d).declFieldOffset = some byteOfs → (tu.tree d).declFieldBitOffset = some bitOfs →
    byteOfs.hostIntegerp = true → bitOfs.hostIntegerp = true →
      fragsOf (xmlPrintOffsetAttribute tu d) = [.attr "offset" [.num (fieldOffset tu byteOfs bitOfs)]] ∨
        2 ^ tu.hostBitsPerWideInt ≤ fieldOffset tu byteOfs bitOfs ∧ fragsOf (xmlPrintOffsetAttribute tu d) = []

variable (tu) in
/-- The `Base` child for a base class, with `offset` as what is written of its offset. -/
def baseWithOffset (base : BaseBinfo Node) (offset : List (String × List (SymPiece Node))) : SymChild Node :=
  { indent := 4
    element := ⟨"Base", [("type", [.id (answer tu base.type)]), ("access", [.str base.access.text]),
      ("virtual", [.num (if base.isVirtual then 1 else 0)])] ++ offset⟩ }

variable (tu) in
/-- **The offset of a base class is exact or absent**, when `tree_low_cst` accepts it; otherwise its assertion fails and
nothing is printed. It is absent only if an `int` cannot hold it. -/
def BaseOffsetExact (typeUnsigned : Bool) (base : BaseBinfo Node) : Prop :=
  base.offset.hostIntegerpAny tu.hostBitsPerWideInt typeUnsigned = true →
    fragsOf (xmlOutputBase tu base) =
        (baseWithOffset tu base [("offset", [.num (base.offset.value tu.hostBitsPerWideInt)])]).frags ∨
      ¬ FitsInt (base.offset.value tu.hostBitsPerWideInt) ∧
        fragsOf (xmlOutputBase tu base) = (baseWithOffset tu base []).frags

omit [DecidableEq Node] in
theorem value_of_hostIntegerp {bits : Nat} {c : IntCst} (h : c.hostIntegerp = true) : c.value bits = c.low := by
  have hhigh : c.high = 0 := by simpa [IntCst.hostIntegerp] using h
  rw [IntCst.value, hhigh]
  simp

omit [DecidableEq Node] in
theorem fieldOffsetExact_iff (d : Node) :
    FieldOffsetExact tu d ↔ ∀ byteOfs bitOfs, (tu.tree d).declFieldOffset = some byteOfs →
      (tu.tree d).declFieldBitOffset = some bitOfs → byteOfs.hostIntegerp = true → bitOfs.hostIntegerp = true →
        fieldOffset tu byteOfs bitOfs < 2 ^ tu.hostBitsPerWideInt := by
  unfold FieldOffsetExact
  refine forall₂_congr fun byteOfs bitOfs => forall₂_congr fun hbyte hbit => forall₂_congr fun hbyteOk hbitOk => ?_
  have hoffset : fieldOffset tu byteOfs bitOfs = ((byteOfs.low * 8 + bitOfs.low : Nat) : Int) := by
    rw [fieldOffset, value_of_hostIntegerp hbyteOk, value_of_hostIntegerp hbitOk]
    push_cast
    ring
  have hfrags : fragsOf (xmlPrintOffsetAttribute tu d) =
      [.attr "offset" [.num ((byteOfs.low * 8 + bitOfs.low) % 2 ^ tu.hostBitsPerWideInt : Nat)]] := by
    unfold xmlPrintOffsetAttribute
    rw [hbyte, hbit, Trace.whenSome_some, Trace.whenSome_some, fragsOf_when, if_pos ⟨hbyteOk, hbitOk⟩]
    rfl
  have hpos : 0 < 2 ^ tu.hostBitsPerWideInt := Nat.two_pow_pos _
  rw [hfrags, hoffset]
  -- from here both sides are about one natural number and its remainder
  generalize byteOfs.low * 8 + bitOfs.low = offset
  have hlt : ((offset : Nat) : Int) < 2 ^ tu.hostBitsPerWideInt ↔ offset < 2 ^ tu.hostBitsPerWideInt := by
    exact_mod_cast Iff.rfl
  rw [hlt]
  constructor
  · rintro (hsame | ⟨-, hnil⟩)
    · simp only [List.cons.injEq, Frag.attr.injEq, Piece.num.injEq, Nat.cast_inj, and_true, true_and] at hsame
      rw [← hsame]
      exact Nat.mod_lt _ hpos
    · cases hnil
  · intro h
    left
    rw [Nat.mod_eq_of_lt h]

theorem baseOffsetExact_iff (hbits : 32 ≤ tu.hostBitsPerWideInt) (typeUnsigned : Bool) (base : BaseBinfo Node) :
    BaseOffsetExact tu typeUnsigned base ↔
      (base.offset.hostIntegerpAny tu.hostBitsPerWideInt typeUnsigned = true →
        FitsInt (base.offset.value tu.hostBitsPerWideInt)) := by
  unfold BaseOffsetExact
  refine forall_congr' fun _ => ?_
  have hfrags : fragsOf (xmlOutputBase tu base) =
      (baseWithOffset tu base [("offset", [.num (asInt base.offset.low)])]).frags := by
    unfold xmlOutputBase
    rw [fragsOf_bind, fragsOf_addNode, value_addNode]
    exact fragsOf_child (baseAttributes_block base _) 4 "Base"
  rw [hfrags, ← asInt_low_eq_iff hbits]
  constructor
  · rintro (hsame | ⟨-, hsame⟩)
    · simpa [baseWithOffset, Child.frags, Element.openFrags, Frag.ofAttr] using hsame
    · simp [baseWithOffset, Child.frags, Element.openFrags] at hsame
  · intro h
    left
    rw [h]

/-- **When offsets are exact or absent.** The offset of a field is exactly when an `unsigned HOST_WIDE_INT` can hold it,
and that of a base class exactly when an `int` can. -/
theorem offsetsExact_iff (hbits : 32 ≤ tu.hostBitsPerWideInt) (d : Node) (typeUnsigned : Bool)
    (base : BaseBinfo Node) :
    (FieldOffsetExact tu d ↔ ∀ byteOfs bitOfs, (tu.tree d).declFieldOffset = some byteOfs →
        (tu.tree d).declFieldBitOffset = some bitOfs → byteOfs.hostIntegerp = true → bitOfs.hostIntegerp = true →
          fieldOffset tu byteOfs bitOfs < 2 ^ tu.hostBitsPerWideInt) ∧
      (BaseOffsetExact tu typeUnsigned base ↔
        (base.offset.hostIntegerpAny tu.hostBitsPerWideInt typeUnsigned = true →
          FitsInt (base.offset.value tu.hostBitsPerWideInt))) :=
  ⟨fieldOffsetExact_iff d, baseOffsetExact_iff hbits typeUnsigned base⟩

/-! ### A base class behind 2 GiB

The unit is `struct A { char a[2147483648]; }; struct B { char b; }; struct C : A, B { int x; };`. -/

/-- The nodes of the example: the global namespace, the three classes and the field. -/
inductive WideClassNode
  | globalNamespace | a | b | c | x
  deriving DecidableEq

/-- The base `B` of `C`. -/
def wideBase : BaseBinfo WideClassNode where
  type := .b
  offset := { low := 2147483648 }

/-- The unit, with its nodes in the order of their addresses. -/
def wideClass : TranslationUnit WideClassNode where
  globalNamespace := .globalNamespace
  tree
    | .globalNamespace => { code := .namespaceDecl, declName := some "::" }
    | .a => { code := .recordType }
    | .b => { code := .recordType }
    | .c => { code := .recordType, typeBinfo := some [{ type := .a }, wideBase], typeFields := [.x] }
    | .x => { code := .fieldDecl, declName := some "x", declContext := some .c
              declFieldOffset := some { low := 2147483648 }, declFieldBitOffset := some { low := 32 } }
  nodes := [.globalNamespace, .a, .b, .c, .x]
  mem_nodes n := by cases n <;> decide
  address
    | .globalNamespace => 0
    | .a => 1
    | .b => 2
    | .c => 3
    | .x => 4
  nodes_sorted := by decide
  rank
    | .c => 1
    | _ => 0
  rank_lt n := by cases n <;> decide

theorem hostBits_wideClass : 32 ≤ wideClass.hostBitsPerWideInt := by
  show 32 ≤ 64
  omega

/-- The field `x` has an offset, and it is exact if an `unsigned HOST_WIDE_INT` can hold it; for the base `B` the question
is whether an `int` can hold the offset. -/
theorem offsetsExact_iff_wideClass :
    (∃ byteOfs bitOfs, (wideClass.tree .x).declFieldOffset = some byteOfs ∧
        (wideClass.tree .x).declFieldBitOffset = some bitOfs ∧ byteOfs.hostIntegerp = true ∧
          bitOfs.hostIntegerp = true ∧ fieldOffset wideClass byteOfs bitOfs = 17179869216) ∧
      (FieldOffsetExact wideClass .x ↔ ∀ byteOfs bitOfs, (wideClass.tree .x).declFieldOffset = some byteOfs →
        (wideClass.tree .x).declFieldBitOffset = some bitOfs → byteOfs.hostIntegerp = true →
          bitOfs.hostIntegerp = true → fieldOffset wideClass byteOfs bitOfs < 2 ^ wideClass.hostBitsPerWideInt) ∧
      (BaseOffsetExact wideClass true wideBase ↔
        (wideBase.offset.hostIntegerpAny wideClass.hostBitsPerWideInt true = true →
          FitsInt (wideBase.offset.value wideClass.hostBitsPerWideInt))) := by
  refine ⟨⟨_, _, rfl, rfl, rfl, rfl, ?_⟩, offsetsExact_iff hostBits_wideClass .x true wideBase⟩
  rw [fieldOffset, value_of_hostIntegerp rfl, value_of_hostIntegerp rfl]
  norm_num

/-- The offset of `B` in `C` is printed as a negative number. -/
theorem not_baseOffsetExact_wideClass :
    (∃ bases, (wideClass.tree .c).typeBinfo = some bases ∧ wideBase ∈ bases) ∧
      attrsOf (baseAttributes wideBase (some WideClassNode.b)) =
        [("type", [.id (some .b)]), ("access", [.str "public"]), ("virtual", [.num 0]),
          ("offset", [.num (-2147483648)])] ∧
      ¬ BaseOffsetExact wideClass true wideBase := by
  have haccepted : wideBase.offset.hostIntegerpAny wideClass.hostBitsPerWideInt true = true := by
    have hlow : 2147483648 < 2 ^ 63 := by decide
    exact decide_eq_true (.inl ⟨rfl, hlow⟩)
  have hvalue : wideBase.offset.value wideClass.hostBitsPerWideInt = 2147483648 := by
    show (0 : Int) * 2 ^ 64 + (2147483648 : Nat) = 2147483648
    norm_num
  refine ⟨⟨_, rfl, List.mem_cons_of_mem _ List.mem_cons_self⟩, ?_, ?_⟩
  · have hint : asInt 2147483648 = -2147483648 := by
      rw [asInt_eq_bmod]
      decide
    rw [← hint]
    rfl
  · rw [baseOffsetExact_iff hostBits_wideClass]
    intro h
    have hfits := h haccepted
    rw [hvalue] at hfits
    exact absurd hfits.2 (by decide)

end GccXml
