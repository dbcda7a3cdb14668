import GccXml.Lib.BinarySearch
import GccXml.Lib.Memory
import GccXml.Libiberty.Md5Pieces
import GccXml.Cpp.SearchState
import GccXml.Cpp.Include

namespace GccXml

/-! # `Cpp.PchEntries` — the files that a precompiled header contains

A precompiled header carries along which files it was made of: the size and the checksum of each, and whether it is to
be included only once. `_cpp_save_file_entries` writes them in the order of their bytes, and
`check_file_against_entries` looks a file up among them with `bsearch`.

Two orders meet here. The records are sorted with `memcmp` over the whole record. They are searched with
`pchf_compare`, which compares the bytes of the size, then those of the checksum, and asks for the mark last, unless
any file counts. `bsearch` finds an entry if what is below the key stands before what is equal, and that before what is
above (`BinarySearch.Ordered`). Sorting by bytes does this, since a record begins with the size and the checksum and
ends with the mark. That the bytes of a size are not ordered as its numbers are, on a little-endian machine, does no
harm: both functions look at the bytes, and the byte order is a parameter of the module.

What is written is a number and an array of records, and reading gives it back. So the search in what was read is the
search in what was written, and it finds what a look at every file that was stacked would find. -/

namespace Cpp

/-! ## Writing -/

/-- `md5_stream` of a file that has been opened. A read error leaves the memory for the sum as it is, which is 0. -/
def md5Stream (out : Outside) (path : Option Path) : Nat :=
  match out.entry (path.getD []) with
  | .file _ contents true => out.md5 contents
  | _ => 0

/-- `pchf_data`: its `count` is the number of its entries. -/
structure PchfData where
  haveOnceOnly : Bool
  entries : List PchEntry

/-- Fill in the next one of `entries`. -/
def PchfData.add (result : PchfData) (entry : PchEntry) : PchfData :=
  ⟨result.haveOnceOnly || entry.onceOnly, result.entries ++ [entry]⟩

/-- The second loop of `_cpp_save_file_entries`. A file whose text is not there any more is opened once again. -/
def collectEntries (out : Outside) : List Nat → Reader → PchfData → Reader × Option PchfData
  | [], r, result => (r, some result)
  | f :: files, r, result =>
      let file := r.file f
      if file.dontRead ∨ file.errNo ≠ .ok then collectEntries out files r result
      else if file.stackCount = 0 then collectEntries out files r result
      else if file.bufferValid then
        collectEntries out files r (result.add ⟨file.st.size, out.md5 (file.buffer.getD []), file.onceOnly⟩)
      else
        let (opened, ok) := openFile out file
        if ¬ ok then (r.setFile f opened, none)
        else collectEntries out files (r.setFile f opened)
          (result.add ⟨opened.st.size, md5Stream out opened.path, opened.onceOnly⟩)

/-- The bytes of an entry that identify a file: its size and its checksum. -/
def contentBytes (order : ByteOrder) (size sum : Nat) : List UInt8 := order.store 8 size ++ lowBytes 16 sum

/-- `pchf_entry` in memory: an `off_t` of eight bytes, the sixteen bytes of the sum, a `bool`, and seven bytes of
padding, which `XCNEWVAR` has cleared. -/
def entryBytes (order : ByteOrder) (entry : PchEntry) : List UInt8 :=
  contentBytes order entry.size entry.sum ++ (if entry.onceOnly then 1 else 0) :: List.replicate 7 0

/-- `pchf_save_compare`. -/
def pchfSaveCompare (order : ByteOrder) (e1 e2 : PchEntry) : Int := memcmp (entryBytes order e1) (entryBytes order e2)

/-- `qsort` with `pchf_save_compare`. -/
def sortEntries (order : ByteOrder) (entries : List PchEntry) : List PchEntry :=
  entries.mergeSort fun e1 e2 => pchfSaveCompare order e1 e2 ≤ 0

/-- The members of `pchf_data` before its entries: a `size_t` of eight bytes, a `bool`, and padding. -/
def headerBytes (order : ByteOrder) (result : PchfData) : List UInt8 :=
  order.store 8 result.entries.length ++ (if result.haveOnceOnly then 1 else 0) :: List.replicate 7 0

def PchfData.bytes (order : ByteOrder) (result : PchfData) : List UInt8 :=
  headerBytes order result ++ result.entries.flatMap (entryBytes order)

/-- `_cpp_save_file_entries`: what it writes, unless it returns false. -/
def saveFileEntries (order : ByteOrder) (out : Outside) (r : Reader) : Reader × Option (List UInt8) :=
  let (r, result) := collectEntries out r.allFiles r ⟨false, []⟩
  (r, result.map fun result => { result with entries := sortEntries order result.entries }.bytes order)

/-! ## Reading -/

/-- A `pchf_entry` from its bytes. -/
def entryOfBytes (order : ByteOrder) (bytes : List UInt8) : PchEntry where
  size := order.load (bytes.take 8)
  sum := ofLowBytes ((bytes.drop 8).take 16)
  onceOnly := (bytes.drop 24).head?.any (· ≠ 0)

/-- `fread` of so many entries: the bytes that are left, unless there are too few. -/
def readEntries (order : ByteOrder) : Nat → List UInt8 → Option (List PchEntry × List UInt8)
  | 0, bytes => some ([], bytes)
  | count + 1, bytes =>
      if bytes.length < 32 then none
      else
        match readEntries order count (bytes.drop 32) with
        | none => none
        | some (entries, bytes') => some (entryOfBytes order (bytes.take 32) :: entries, bytes')

/-- `_cpp_read_file_entries`: the new `pchf` and the bytes that are left, unless it returns false. -/
def readFileEntries (order : ByteOrder) (bytes : List UInt8) : Option (PchfData × List UInt8) :=
  if bytes.length < 16 then none
  else
    match readEntries order (order.load (bytes.take 8)) (bytes.drop 16) with
    | none => none
    | some (entries, bytes') => some (⟨(bytes.drop 8).head?.any (· ≠ 0), entries⟩, bytes')

/-! ## Looking a file up -/

/-- `pchf_compare_data`, as far as it changes: the checksum of the file, if it has been computed. -/
abbrev ComputedSum := Option Nat

/-- `pchf_compare`: the checksum is computed when there is an entry of the same size. -/
def pchfCompare (order : ByteOrder) (out : Outside) (file : CppFile) (checkIncluded : Bool) (d : ComputedSum)
    (e : PchEntry) : ComputedSum × Int :=
  let result := memcmp (order.store 8 file.st.size) (order.store 8 e.size)
  if result ≠ 0 then (d, result)
  else
    let sum := d.getD (out.md5 (file.buffer.getD []))
    let result := memcmp (lowBytes 16 sum) (lowBytes 16 e.sum)
    if result ≠ 0 then (some sum, result)
    else if checkIncluded ∨ e.onceOnly then (some sum, 0)
    else (some sum, 1)

/-- `check_file_against_entries`, in the array. -/
def checkFileAgainstArray (order : ByteOrder) (out : Outside) (pchf : Option PchfData) (file : CppFile)
    (checkIncluded : Bool) : Option Bool :=
  match pchf with
  | none => some false
  | some pchf =>
      if ¬ checkIncluded ∧ ¬ pchf.haveOnceOnly then some false
      else
        (BinarySearch.bsearch (pchfCompare order out file checkIncluded) none pchf.entries).map fun (_, found) =>
          found.isSome

/-! ## What is to be saved -/

/-- The entry of a file that has been stacked, from the text that was read or, if it is not there any more, from the
file system. -/
def savedEntry (out : Outside) (file : CppFile) : Option PchEntry :=
  if file.dontRead ∨ file.errNo ≠ .ok ∨ file.stackCount = 0 then none
  else if file.bufferValid then some ⟨file.st.size, out.md5 (file.buffer.getD []), file.onceOnly⟩
  else some ⟨(openFile out file).1.st.size, md5Stream out file.path, file.onceOnly⟩

/-- The entries of all files, in the order of the files. -/
def savedEntries (out : Outside) (r : Reader) : List PchEntry :=
  r.allFiles.filterMap fun f => savedEntry out (r.file f)

/-- What is stored fits in the memory that it is stored in: sizes are those of an `off_t`, and a checksum has sixteen
bytes. -/
structure FitsInMemory (out : Outside) (r : Reader) : Prop where
  md5 : ∀ contents, out.md5 contents < 2 ^ 128
  size : ∀ f, (r.file f).st.size < 2 ^ 63
  contents : ∀ path mtime contents readable, out.entry path = .file mtime contents readable → contents.length < 2 ^ 63

variable {order : ByteOrder} {out out' : Outside} {r r' : Reader} {file : CppFile} {checkIncluded : Bool}
  {e e' key : PchEntry} {entries : List PchEntry}

/-! ## What is collected -/

theorem openFile_same (out : Outside) (file : CppFile) :
    (openFile out file).1.path = file.path ∧ (openFile out file).1.onceOnly = file.onceOnly := by
  unfold openFile
  split <;> exact ⟨rfl, rfl⟩

/-- One pass passes over a file that is not to be saved. -/
theorem collectEntries_skip {f : Nat} {files : List Nat} {result : PchfData} (h : savedEntry out (r.file f) = none) :
    collectEntries out (f :: files) r result = collectEntries out files r result := by
  rw [collectEntries]
  unfold savedEntry at h
  by_cases hskip : (r.file f).dontRead = true ∨ (r.file f).errNo ≠ .ok ∨ (r.file f).stackCount = 0
  · by_cases herror : (r.file f).dontRead = true ∨ (r.file f).errNo ≠ .ok
    · exact if_pos herror
    · have hcount : (r.file f).stackCount = 0 := by tauto
      exact (if_neg herror).trans (if_pos hcount)
  · rw [if_neg hskip] at h
    split at h <;> cases h

/-- One pass adds the entry of a file that is to be saved, and leaves the other files alone, unless the file cannot be
opened. -/
theorem collectEntries_add {f : Nat} {files : List Nat} {result : PchfData} (h : savedEntry out (r.file f) = some e) :
    (∃ r', collectEntries out (f :: files) r result = (r', none)) ∨
      ∃ r', (∀ g, g ≠ f → r'.file g = r.file g) ∧
        collectEntries out (f :: files) r result = collectEntries out files r' (result.add e) := by
  rw [collectEntries]
  unfold savedEntry at h
  by_cases hskip : (r.file f).dontRead = true ∨ (r.file f).errNo ≠ .ok ∨ (r.file f).stackCount = 0
  · rw [if_pos hskip] at h
    cases h
  · rw [if_neg hskip] at h
    have herror : ¬ ((r.file f).dontRead = true ∨ (r.file f).errNo ≠ .ok) := by tauto
    have hcount : (r.file f).stackCount ≠ 0 := by tauto
    dsimp only
    rw [if_neg herror, if_neg hcount]
    by_cases hvalid : (r.file f).bufferValid = true
    · rw [if_pos hvalid] at h ⊢
      cases h
      exact .inr ⟨r, fun _ _ => rfl, rfl⟩
    · rw [if_neg hvalid] at h ⊢
      obtain ⟨hpath, honce⟩ := openFile_same out (r.file f)
      rw [← hpath, ← honce] at h
      cases h
      by_cases hok : (openFile out (r.file f)).2 = true
      · rw [if_neg (not_not_intro hok)]
        exact .inr ⟨_, fun g hg => Reader.file_setFile_ne hg, rfl⟩
      · rw [if_pos hok]
        exact .inl ⟨_, rfl⟩

/-- The loop adds the entries of the files, and remembers whether one of them is to be included only once. -/
theorem collectEntries_spec {files : List Nat} (hnodup : files.Nodup) {result result' : PchfData}
    (hflag : result.haveOnceOnly = result.entries.any PchEntry.onceOnly)
    (h : collectEntries out files r result = (r', some result')) :
    result'.entries = result.entries ++ files.filterMap (fun f => savedEntry out (r.file f)) ∧
      result'.haveOnceOnly = result'.entries.any PchEntry.onceOnly := by
  induction files generalizing r result with
  | nil =>
      cases h
      exact ⟨(List.append_nil _).symm, hflag⟩
  | cons f files ih =>
      obtain ⟨hf, hnodup⟩ := List.nodup_cons.mp hnodup
      cases hentry : savedEntry out (r.file f) with
      | none =>
          rw [collectEntries_skip hentry] at h
          have hnone : (f :: files).filterMap (fun f => savedEntry out (r.file f)) =
              files.filterMap fun f => savedEntry out (r.file f) := List.filterMap_cons_none hentry
          rw [hnone]
          exact ih hnodup hflag h
      | some e =>
          obtain ⟨r₁, hfail⟩ | ⟨r₁, hothers, hadd⟩ := @collectEntries_add out r e f files result hentry
          · rw [hfail] at h
            cases h
          · rw [hadd] at h
            have hflag' : (result.add e).haveOnceOnly = (result.add e).entries.any PchEntry.onceOnly := by
              simp [PchfData.add, hflag]
            obtain ⟨hentries, hresult⟩ := ih hnodup hflag' h
            have hsame : files.filterMap (fun g => savedEntry out (r₁.file g)) =
                files.filterMap fun g => savedEntry out (r.file g) := by
              apply List.filterMap_congr
              intro g hg
              rw [hothers g fun heq => hf (heq ▸ hg)]
            have hsome : (f :: files).filterMap (fun f => savedEntry out (r.file f)) =
                e :: files.filterMap fun f => savedEntry out (r.file f) := List.filterMap_cons_some hentry
            refine ⟨?_, hresult⟩
            rw [hsome, hentries, hsame, PchfData.add, List.append_assoc]
            rfl

/-! ## Bytes -/

/-- The entry has the size of its memory. -/
structure PchEntry.Fits (e : PchEntry) : Prop where
  size : e.size < 256 ^ 8
  sum : e.sum < 256 ^ 16

theorem FitsInMemory.sum_lt (hfit : FitsInMemory out r) (path : Option Path) : md5Stream out path < 2 ^ 128 := by
  unfold md5Stream
  split
  · exact hfit.md5 _
  · omega

theorem FitsInMemory.openFile_size (hfit : FitsInMemory out r) (f : Nat) :
    (openFile out (r.file f)).1.st.size < 2 ^ 63 := by
  unfold openFile
  split
  · exact hfit.size f
  · exact hfit.size f
  · next hentry => exact hfit.contents _ _ _ _ hentry

theorem FitsInMemory.savedEntries (hfit : FitsInMemory out r) : ∀ e ∈ savedEntries out r, e.Fits := by
  intro e he
  obtain ⟨f, -, hsaved⟩ := List.mem_filterMap.mp he
  unfold savedEntry at hsaved
  split at hsaved
  · cases hsaved
  · split at hsaved
    · cases hsaved
      have hsize := hfit.size f
      have hsum := hfit.md5 ((r.file f).buffer.getD [])
      exact ⟨by show (r.file f).st.size < _; omega, by show out.md5 _ < _; omega⟩
    · cases hsaved
      have hsize := hfit.openFile_size f
      have hsum := hfit.sum_lt (r.file f).path
      exact ⟨by show (openFile out _).1.st.size < _; omega, by show md5Stream out _ < _; omega⟩

@[simp] theorem length_contentBytes (order : ByteOrder) (size sum : Nat) : (contentBytes order size sum).length = 24 := by
  rw [contentBytes, List.length_append, ByteOrder.length_store, length_lowBytes]

@[simp] theorem length_entryBytes (order : ByteOrder) (e : PchEntry) : (entryBytes order e).length = 32 := by
  rw [entryBytes, List.length_append, length_contentBytes, List.length_cons, List.length_replicate]

/-- An entry is read as it was written. -/
theorem entryOfBytes_entryBytes (he : e.Fits) : entryOfBytes order (entryBytes order e) = e := by
  have hsize : (entryBytes order e).take 8 = order.store 8 e.size := by
    rw [entryBytes, contentBytes, List.append_assoc]
    exact List.take_left' (ByteOrder.length_store order 8 e.size)
  have hsum : ((entryBytes order e).drop 8).take 16 = lowBytes 16 e.sum := by
    rw [entryBytes, contentBytes, List.append_assoc, List.drop_left' (ByteOrder.length_store order 8 e.size)]
    exact List.take_left' (length_lowBytes 16 e.sum)
  have honce : (entryBytes order e).drop 24 = (if e.onceOnly then 1 else 0) :: List.replicate 7 0 :=
    List.drop_left' (length_contentBytes order e.size e.sum)
  rw [entryOfBytes, hsize, hsum, honce, ByteOrder.load_store he.size, ofLowBytes_lowBytes he.sum]
  obtain ⟨size, sum, onceOnly⟩ := e
  cases onceOnly <;> rfl

theorem readEntries_entryBytes (hfit : ∀ e ∈ entries, e.Fits) (behind : List UInt8) :
    readEntries order entries.length (entries.flatMap (entryBytes order) ++ behind) = some (entries, behind) := by
  induction entries with
  | nil => rfl
  | cons e entries ih =>
      obtain ⟨he, hfit⟩ := List.forall_mem_cons.mp hfit
      have hbytes : (e :: entries).flatMap (entryBytes order) ++ behind =
          entryBytes order e ++ (entries.flatMap (entryBytes order) ++ behind) := by
        rw [List.flatMap_cons, List.append_assoc]
      have hlength : ¬ (entryBytes order e ++ (entries.flatMap (entryBytes order) ++ behind)).length < 32 := by
        rw [List.length_append, length_entryBytes]
        omega
      rw [hbytes, List.length_cons, readEntries, if_neg hlength, List.drop_left' (length_entryBytes order e),
        List.take_left' (length_entryBytes order e), ih hfit, entryOfBytes_entryBytes he]

/-- The header and the entries are read as they were written, whatever is behind them. -/
theorem readFileEntries_bytes {result : PchfData} (hfit : ∀ e ∈ result.entries, e.Fits)
    (hcount : result.entries.length < 256 ^ 8) (behind : List UInt8) :
    readFileEntries order (result.bytes order ++ behind) = some (result, behind) := by
  have hheader : (headerBytes order result).length = 16 := by
    rw [headerBytes, List.length_append, ByteOrder.length_store, List.length_cons, List.length_replicate]
  have hsplit : result.bytes order ++ behind =
      headerBytes order result ++ (result.entries.flatMap (entryBytes order) ++ behind) := by
    rw [PchfData.bytes, List.append_assoc]
  have hlength : ¬ (headerBytes order result ++ (result.entries.flatMap (entryBytes order) ++ behind)).length < 16 := by
    rw [List.length_append, hheader]
    omega
  have hstored := ByteOrder.length_store order 8 result.entries.length
  have hload : (headerBytes order result ++ (result.entries.flatMap (entryBytes order) ++ behind)).take 8 =
      order.store 8 result.entries.length := by
    rw [headerBytes, List.append_assoc]
    exact List.take_left' hstored
  have hflag : (headerBytes order result ++ (result.entries.flatMap (entryBytes order) ++ behind)).drop 8 =
      (if result.haveOnceOnly then 1 else 0) ::
        (List.replicate 7 0 ++ (result.entries.flatMap (entryBytes order) ++ behind)) := by
    rw [headerBytes, List.append_assoc]
    exact List.drop_left' hstored
  rw [hsplit, readFileEntries, if_neg hlength, hload, ByteOrder.load_store hcount, List.drop_left' hheader,
    readEntries_entryBytes hfit, hflag]
  obtain ⟨haveOnceOnly, entries⟩ := result
  cases haveOnceOnly <;> rfl

/-! ## Order -/

theorem pchfSaveCompare_total (e e' : PchEntry) :
    decide (pchfSaveCompare order e e' ≤ 0) || decide (pchfSaveCompare order e' e ≤ 0) := by
  have hneg : pchfSaveCompare order e' e = -pchfSaveCompare order e e' := memcmp_neg _ _
  rw [Bool.or_eq_true, decide_eq_true_iff, decide_eq_true_iff]
  omega

theorem pchfSaveCompare_trans (e₁ e₂ e₃ : PchEntry) (h : decide (pchfSaveCompare order e₁ e₂ ≤ 0))
    (h' : decide (pchfSaveCompare order e₂ e₃ ≤ 0)) : decide (pchfSaveCompare order e₁ e₃ ≤ 0) := by
  rw [decide_eq_true_iff] at h h' ⊢
  have hlength : ∀ e e', (entryBytes order e).length = (entryBytes order e').length := by
    intro e e'
    rw [length_entryBytes, length_entryBytes]
  exact (memcmp_trans (hlength e₁ e₂) (hlength e₂ e₃) h h').1

theorem sortEntries_pairwise (order : ByteOrder) (entries : List PchEntry) :
    (sortEntries order entries).Pairwise fun e e' => pchfSaveCompare order e e' ≤ 0 := by
  refine List.Pairwise.imp ?_ (List.pairwise_mergeSort pchfSaveCompare_trans pchfSaveCompare_total entries)
  intro e e' h
  exact of_decide_eq_true h

theorem mem_sortEntries : e ∈ sortEntries order entries ↔ e ∈ entries := List.mem_mergeSort

/-- `pchf_compare` once the checksum of the file is known. -/
def compareEntry (order : ByteOrder) (size sum : Nat) (checkIncluded : Bool) (e : PchEntry) : Int :=
  let result := memcmp (contentBytes order size sum) (contentBytes order e.size e.sum)
  if result ≠ 0 then result else if checkIncluded ∨ e.onceOnly then 0 else 1

/-- Of two entries in order, the contents are in order, and with the same contents the second is the one to be included
only once if any is. -/
theorem contentBytes_of_sorted (h : pchfSaveCompare order e e' ≤ 0) :
    memcmp (contentBytes order e.size e.sum) (contentBytes order e'.size e'.sum) ≤ 0 ∧
      (memcmp (contentBytes order e.size e.sum) (contentBytes order e'.size e'.sum) = 0 →
        e.onceOnly = true → e'.onceOnly = true) := by
  have hlength : (contentBytes order e.size e.sum).length = (contentBytes order e'.size e'.sum).length := by
    rw [length_contentBytes, length_contentBytes]
  rw [pchfSaveCompare, entryBytes, entryBytes, memcmp_append hlength] at h
  split at h
  · next hzero =>
      refine ⟨Int.le_of_eq hzero, fun _ honce => ?_⟩
      by_contra honce'
      rw [if_pos honce, if_neg honce'] at h
      exact absurd h (by decide)
  · next hne => exact ⟨h, fun hzero => absurd hzero hne⟩

/-- **Entries in the order of their bytes** are in the order of `pchf_compare`, for every file. -/
theorem sortEntries_ordered (order : ByteOrder) (size sum : Nat) (checkIncluded : Bool) (entries : List PchEntry) :
    BinarySearch.Ordered (compareEntry order size sum checkIncluded) (sortEntries order entries) := by
  refine List.Pairwise.imp ?_ (sortEntries_pairwise order entries)
  intro e e' h
  obtain ⟨hle, honce⟩ := contentBytes_of_sorted h
  have hlength : ∀ size sum size' sum', (contentBytes order size sum).length = (contentBytes order size' sum').length := by
    intro size sum size' sum'
    rw [length_contentBytes, length_contentBytes]
  have hfrom := @memcmp_trans (contentBytes order size sum) (contentBytes order e.size e.sum)
    (contentBytes order e'.size e'.sum) (hlength _ _ _ _) (hlength _ _ _ _)
  have hto := @memcmp_trans (contentBytes order e.size e.sum) (contentBytes order e'.size e'.sum)
    (contentBytes order size sum) (hlength _ _ _ _) (hlength _ _ _ _)
  rw [memcmp_neg (contentBytes order size sum), memcmp_neg (contentBytes order size sum)] at hto
  unfold compareEntry
  generalize memcmp (contentBytes order size sum) (contentBytes order e.size e.sum) = key at hfrom hto ⊢
  generalize memcmp (contentBytes order size sum) (contentBytes order e'.size e'.sum) = key' at hfrom hto ⊢
  generalize memcmp (contentBytes order e.size e.sum) (contentBytes order e'.size e'.sum) = between at hle honce hfrom hto
  dsimp only
  constructor
  · intro hless
    have hkey : key < 0 := by
      split at hless
      · exact hless
      · split at hless <;> omega
    have hkey' : key' < 0 := (hfrom (by omega) hle).2 (.inl hkey)
    rw [if_pos (by omega)]
    exact hkey'
  · intro hgreater
    have hkey' : 0 ≤ key' := by
      split at hgreater <;> omega
    obtain ⟨hkey, hstrict⟩ := hto hle (by omega)
    by_cases hzero : key = 0
    · -- the first entry has the contents of the file, and so does the second, which is then asked for less
      have hzero' : key' = 0 := by omega
      have hbetween : between = 0 := by omega
      rw [if_neg (not_not_intro hzero')] at hgreater
      rw [if_neg (not_not_intro hzero)]
      split at hgreater
      · omega
      · next hnot =>
          rw [if_neg fun hor => hnot (hor.imp_right (honce hbetween))]
          omega
    · rw [if_pos hzero]
      omega

/-! ## Looking up -/

/-- The comparison keeps the checksum of the file once it has computed it. -/
theorem pchfCompare_computes (order : ByteOrder) (out : Outside) (file : CppFile) (checkIncluded : Bool) :
    BinarySearch.Computes (pchfCompare order out file checkIncluded)
      (compareEntry order file.st.size (out.md5 (file.buffer.getD [])) checkIncluded)
      fun d => d.getD (out.md5 (file.buffer.getD [])) = out.md5 (file.buffer.getD []) := by
  intro d hd e
  have hlength : (order.store 8 file.st.size).length = (order.store 8 e.size).length := by
    rw [ByteOrder.length_store, ByteOrder.length_store]
  unfold pchfCompare compareEntry contentBytes
  rw [memcmp_append hlength, hd]
  dsimp only
  by_cases hsize : memcmp (order.store 8 file.st.size) (order.store 8 e.size) = 0
  · rw [if_neg (not_not_intro hsize), if_pos hsize]
    split
    · exact ⟨rfl, rfl⟩
    · split <;> exact ⟨rfl, rfl⟩
  · rw [if_pos hsize, if_neg hsize, if_pos hsize]
    exact ⟨hd, rfl⟩

/-- An entry compares equal if it has the contents of the file and is asked for. -/
theorem compareEntry_eq_zero {size sum : Nat} (hsize : size < 256 ^ 8) (hsum : sum < 256 ^ 16) (he : e.Fits) :
    compareEntry order size sum checkIncluded e = 0 ↔
      (checkIncluded = true ∨ e.onceOnly = true) ∧ e.size = size ∧ e.sum = sum := by
  have hlength : (order.store 8 size).length = (order.store 8 e.size).length := by
    rw [ByteOrder.length_store, ByteOrder.length_store]
  have hcontents : memcmp (contentBytes order size sum) (contentBytes order e.size e.sum) = 0 ↔
      e.size = size ∧ e.sum = sum := by
    rw [contentBytes, contentBytes, memcmp_append hlength]
    have hsizes : memcmp (order.store 8 size) (order.store 8 e.size) = 0 ↔ e.size = size := by
      rw [memcmp_eq_zero hlength, ByteOrder.store_inj hsize he.size, eq_comm]
    have hsums : memcmp (lowBytes 16 sum) (lowBytes 16 e.sum) = 0 ↔ e.sum = sum := by
      rw [memcmp_eq_zero (by rw [length_lowBytes, length_lowBytes]), lowBytes_inj hsum he.sum, eq_comm]
    rw [← hsizes, ← hsums]
    split
    · next hzero => exact (and_iff_right hzero).symm
    · next hne => exact iff_of_false hne fun h => hne h.1
  rw [← hcontents]
  unfold compareEntry
  dsimp only
  by_cases hzero : memcmp (contentBytes order size sum) (contentBytes order e.size e.sum) = 0
  · rw [if_neg (not_not_intro hzero), and_iff_left hzero]
    split
    · next hor => exact iff_of_true rfl hor
    · next hor => exact iff_of_false (by decide) hor
  · rw [if_pos hzero]
    exact iff_of_false hzero fun h => hzero h.2

/-- **Looking up in the sorted array** gives what looking through all entries gives. -/
theorem checkFileAgainstArray_eq (hfit : ∀ e ∈ entries, e.Fits) (hsize : file.st.size < 2 ^ 63)
    (hsum : out.md5 (file.buffer.getD []) < 2 ^ 128) (reader : Reader) :
    checkFileAgainstArray order out (some ⟨entries.any PchEntry.onceOnly, sortEntries order entries⟩) file
        checkIncluded =
      some (checkFileAgainstEntries out { reader with pchf := some entries } file checkIncluded) := by
  have hplain : checkFileAgainstEntries out { reader with pchf := some entries } file checkIncluded = true ↔
      ∃ e ∈ entries, compareEntry order file.st.size (out.md5 (file.buffer.getD [])) checkIncluded e = 0 := by
    rw [checkFileAgainstEntries, List.any_eq_true]
    apply exists_congr
    intro e
    refine and_congr_right fun he => ?_
    rw [compareEntry_eq_zero (by omega) (by omega) (hfit e he)]
    simp [and_assoc]
  unfold checkFileAgainstArray
  dsimp only
  split
  · next hnone =>
      -- no entry is to be included only once, and nothing else is asked for
      congr 1
      symm
      rw [Bool.eq_false_iff, Ne, hplain]
      rintro ⟨e, he, hzero⟩
      rw [compareEntry_eq_zero (by omega) (by omega) (hfit e he)] at hzero
      exact hzero.1.elim hnone.1 fun honce => hnone.2 (List.any_eq_true.mpr ⟨e, he, honce⟩)
  · obtain ⟨state, found, hsearch, hfound⟩ := BinarySearch.bsearch_spec
      (pchfCompare_computes order out file checkIncluded)
      (sortEntries_ordered order file.st.size (out.md5 (file.buffer.getD [])) checkIncluded entries)
      (Option.getD_none (a := out.md5 (file.buffer.getD [])))
    rw [hsearch, Option.map_some]
    congr 1
    rw [Bool.eq_iff_iff, hfound, hplain]
    simp only [mem_sortEntries]

/-- **What is written is what is looked up.** The entries that are written into a precompiled header are read back from
it, whatever else comes after them, and a later search among them finds what a look at every file would: whether the
file has the size and the checksum of one that was stacked and, unless any such file counts, is to be included only
once. -/
theorem pch_entries_round_trip {written : List UInt8} (hfit : FitsInMemory out r) (hcount : r.files.length < 2 ^ 31)
    (hsave : saveFileEntries order out r = (r', some written)) (behind : List UInt8) :
    ∃ pchf, readFileEntries order (written ++ behind) = some (pchf, behind) ∧
      ∀ (out' : Outside) (reader : Reader) (file : CppFile) (checkIncluded : Bool), file.st.size < 2 ^ 63 →
        out'.md5 (file.buffer.getD []) < 2 ^ 128 →
        checkFileAgainstArray order out' (some pchf) file checkIncluded =
          some (checkFileAgainstEntries out' { reader with pchf := some (savedEntries out r) } file checkIncluded) := by
  have hnodup : r.allFiles.Nodup := List.nodup_reverse.mpr List.nodup_range
  obtain ⟨r₁, hcollect⟩ | ⟨r₁, result, hcollect⟩ :
      (∃ r₁, collectEntries out r.allFiles r ⟨false, []⟩ = (r₁, none)) ∨
        ∃ r₁ result, collectEntries out r.allFiles r ⟨false, []⟩ = (r₁, some result) := by
    rcases collectEntries out r.allFiles r ⟨false, []⟩ with ⟨r₁, _ | result⟩
    · exact .inl ⟨r₁, rfl⟩
    · exact .inr ⟨r₁, result, rfl⟩
  · rw [saveFileEntries, hcollect] at hsave
    cases hsave
  · rw [saveFileEntries, hcollect] at hsave
    cases hsave
    obtain ⟨hentries, hflag⟩ := collectEntries_spec hnodup rfl hcollect
    rw [List.nil_append] at hentries
    have hsaved : result.entries = savedEntries out r := hentries
    have hlength : (savedEntries out r).length < 256 ^ 8 := by
      have hle := List.length_filterMap_le (fun f => savedEntry out (r.file f)) r.allFiles
      rw [Reader.allFiles, List.length_reverse, List.length_range] at hle
      exact Nat.lt_of_le_of_lt hle (by omega)
    obtain ⟨haveOnceOnly, entries⟩ := result
    cases hsaved
    obtain rfl : haveOnceOnly = (savedEntries out r).any PchEntry.onceOnly := hflag
    refine ⟨_, readFileEntries_bytes ?_ ?_ behind, ?_⟩
    · intro e he
      exact hfit.savedEntries e (mem_sortEntries.mp he)
    · rw [sortEntries, List.length_mergeSort]
      exact hlength
    · intro out' reader file checkIncluded hsize hsum
      exact checkFileAgainstArray_eq hfit.savedEntries hsize hsum reader

/-- The checksum of a text whose characters are bytes. -/
def md5Sum (contents : Contents) : Nat := ofLowBytes (Md5.md5 (contents.map fun c => UInt8.ofNat c.toNat))

theorem md5Sum_lt (contents : Contents) : md5Sum contents < 2 ^ 128 := by
  have h := ofLowBytes_lt (Md5.md5 (contents.map fun c => UInt8.ofNat c.toNat))
  rw [Md5.length_md5] at h
  exact h

/-- A header that has been stacked, in a directory of its own. -/
def stackedHeader (path : Path) (text : Contents) (onceOnly : Bool) : CppFile where
  name := path
  path := some path
  buffer := some text
  bufferValid := true
  dir := some .noSearchPath
  st := ⟨0, text.length⟩
  stackCount := 1
  onceOnly := onceOnly

/-- Two headers of one size, of which the first is to be included only once, and a shorter one. -/
def stackedHeaders : List CppFile :=
  [stackedHeader ['a'] ['a', 'b', 'c'] true, stackedHeader ['b'] ['a', 'b', 'd'] false, stackedHeader ['c'] ['x'] false]

/-- The directory with these headers. -/
def headerDirectory : Outside where
  entry path :=
    if path = ['a'] then .file 0 ['a', 'b', 'c'] true
    else if path = ['b'] then .file 0 ['a', 'b', 'd'] true
    else if path = ['c'] then .file 0 ['x'] true
    else .missing
  guard _ := none
  md5 := md5Sum

theorem fitsInMemory_stackedHeaders : FitsInMemory headerDirectory { files := stackedHeaders } := by
  refine ⟨md5Sum_lt, fun f => ?_, fun path mtime contents readable hentry => ?_⟩
  · match f with
    | 0 => exact (by decide : 3 < 2 ^ 63)
    | 1 => exact (by decide : 3 < 2 ^ 63)
    | 2 => exact (by decide : 1 < 2 ^ 63)
    | _ + 3 => exact (by decide : 0 < 2 ^ 63)
  · unfold headerDirectory at hentry
    dsimp only at hentry
    split_ifs at hentry
    · cases hentry
      exact (by decide : 3 < 2 ^ 63)
    · cases hentry
      exact (by decide : 3 < 2 ^ 63)
    · cases hentry
      exact (by decide : 1 < 2 ^ 63)

/-- The two headers of one size are told apart by their sums: without `check_included` only the first one counts. -/
theorem pch_entries_round_trip_headers :
    ∃ written pchf, (saveFileEntries .little headerDirectory { files := stackedHeaders }).2 = some written ∧
      readFileEntries .little (written ++ [0]) = some (pchf, [0]) ∧
      ∀ text ∈ [['a', 'b', 'c'], ['a', 'b', 'd'], ['x'], ['y']], ∀ checkIncluded,
        checkFileAgainstArray .little headerDirectory (some pchf) (stackedHeader ['h'] text false) checkIncluded =
          some (text = ['a', 'b', 'c'] || (checkIncluded && text ≠ ['y'])) := by
  have hfiles : Reader.allFiles { files := stackedHeaders } = [2, 1, 0] := rfl
  have hcollect : ∀ out, collectEntries out [2, 1, 0] { files := stackedHeaders } ⟨false, []⟩ =
      ({ files := stackedHeaders }, some ⟨true, [⟨1, out.md5 ['x'], false⟩, ⟨3, out.md5 ['a', 'b', 'd'], false⟩,
        ⟨3, out.md5 ['a', 'b', 'c'], true⟩]⟩) := fun _ => rfl
  obtain ⟨written, hsave⟩ : ∃ written, saveFileEntries .little headerDirectory { files := stackedHeaders } =
      ({ files := stackedHeaders }, some written) := by
    rw [saveFileEntries, hfiles, hcollect]
    exact ⟨_, rfl⟩
  obtain ⟨pchf, hread, hcheck⟩ := pch_entries_round_trip fitsInMemory_stackedHeaders (by decide) hsave [0]
  refine ⟨written, pchf, by rw [hsave], hread, fun text htext checkIncluded => ?_⟩
  have hlength : text.length < 2 ^ 63 := by
    simp only [List.mem_cons, List.not_mem_nil, or_false] at htext
    rcases htext with rfl | rfl | rfl | rfl <;> decide
  rw [hcheck headerDirectory {} (stackedHeader ['h'] text false) checkIncluded hlength (md5Sum_lt _)]
  have hsaved : ∀ out, savedEntries out { files := stackedHeaders } =
      [⟨1, out.md5 ['x'], false⟩, ⟨3, out.md5 ['a', 'b', 'd'], false⟩, ⟨3, out.md5 ['a', 'b', 'c'], true⟩] := fun _ => rfl
  have habcd : md5Sum ['a', 'b', 'c'] ≠ md5Sum ['a', 'b', 'd'] := by decide +kernel
  have hxy : md5Sum ['x'] ≠ md5Sum ['y'] := by decide +kernel
  rw [hsaved, checkFileAgainstEntries]
  simp only [List.mem_cons, List.not_mem_nil, or_false] at htext
  rcases htext with rfl | rfl | rfl | rfl <;>
    simp [stackedHeader, headerDirectory, habcd, habcd.symm, hxy]

end Cpp

end GccXml
