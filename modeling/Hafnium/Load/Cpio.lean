import Mathlib.Algebra.Group.Nat.Defs
import Mathlib.Data.List.Infix

/-! # Files in a cpio archive

`cpio_get_file` walks over the entries of an archive by the sizes in their headers, and compares the
name of each entry with the end marker and then with the name it looks for. It does not check that
the name ends within the entry: a comparison that meets no difference runs over the end of the archive.
-/

namespace Hafnium.Load

abbrev Byte := BitVec 8

/-- The name of the entry that ends an archive. -/
def trailer : List Byte := [0x54, 0x52, 0x41, 0x49, 0x4c, 0x45, 0x52, 0x21, 0x21, 0x21]

def stringMaxSize : Nat := 32

/-- A file as `cpio_next` returns it. A pointer into the archive is the rest of the archive from there on. -/
structure CpioFile where
  name : List Byte
  contents : List Byte
  size : Nat
  rest : List Byte

def memiterAdvance (it : List Byte) (v : Nat) : Option (List Byte) :=
  if v ≤ it.length then some (it.drop v) else none

/-- Whether `strncmp` returns zero. The second string is given without its terminator. If `a` ends
before the comparison, then a byte outside the archive is read. -/
def strncmp : (a b : List Byte) → (n : Nat) → Option Bool
  | _, _, 0 => some true
  | [], _, _ + 1 => none
  | x :: a, b, n + 1 =>
    let y := b.headD 0
    if x = 0 ∨ x ≠ y then some (x = y) else strncmp a b.tail n

/-- A 16-bit field of the header at the start of some bytes. -/
def field (bytes : List Byte) (offset : Nat) : Nat :=
  (bytes.getD offset 0).toNat + 256 * (bytes.getD (offset + 1) 0).toNat

/-- The entry at the iterator, whose size fields are at offsets 20, 22 and 24. -/
def cpioEntry (iter : List Byte) : Option CpioFile := do
  let name ← memiterAdvance iter 26
  let contents ← memiterAdvance name ((field iter 20 + 1) / 2 * 2)
  let size := field iter 22 * 2 ^ 16 + field iter 24
  let rest ← memiterAdvance contents ((size + 1) / 2 * 2)
  some { name, contents, size, rest }

def cpioNext (iter : List Byte) : Option (Option CpioFile) :=
  match cpioEntry iter with
  | none => some none
  | some file =>
    (strncmp file.name trailer (trailer.length + 1)).map fun ended => if ended then none else some file

variable {a b name iter archive : List Byte} {n : Nat} {file : CpioFile}

/-- An entry lies in the archive, and the next one starts behind its header. -/
theorem cpioEntry_some (found : cpioEntry iter = some file) :
    file.contents <:+ iter ∧ file.size ≤ file.contents.length ∧ file.rest <:+ iter ∧
    file.rest.length < iter.length := by
  simp only [cpioEntry, memiterAdvance, Option.bind_eq_bind, Option.bind_eq_some_iff,
    Option.ite_none_right_eq_some, Option.some.injEq] at found
  obtain ⟨_, ⟨fits, rfl⟩, _, ⟨-, rfl⟩, _, ⟨inside, rfl⟩, rfl⟩ := found
  have stored := (List.drop_suffix ((field iter 20 + 1) / 2 * 2) _).trans (List.drop_suffix 26 iter)
  refine ⟨stored, Nat.le_trans (by dsimp only; omega) inside, (List.drop_suffix _ _).trans stored, ?_⟩
  simp only [List.length_drop] at inside ⊢
  omega

theorem cpioNext_some (found : cpioNext iter = some (some file)) : cpioEntry iter = some file := by
  rw [cpioNext] at found
  split at found
  · cases found
  · next entry =>
    rw [entry]
    simp only [Option.map_eq_some_iff] at found
    obtain ⟨ended, -, result⟩ := found
    cases ended <;> cases result
    rfl

/-- Looks for a file; the result is what the iterator is initialised with. -/
def cpioGetFile (name iter : List Byte) : Option (Option (List Byte × Nat)) :=
  match found : cpioNext iter with
  | none => none
  | some none => some none
  | some (some file) =>
    have := (cpioEntry_some (cpioNext_some found)).2.2.2
    match strncmp file.name name stringMaxSize with
    | none => none
    | some true => some (some (file.contents, file.size))
    | some false => cpioGetFile name file.rest
termination_by iter.length

/-! ## Comparing names -/

/-- Some bytes start with a name and its terminator. -/
def Named (bytes name : List Byte) : Prop := name ++ [0] <+: bytes

instance : DecidableRel Named := fun bytes name => inferInstanceAs (Decidable (name ++ [0] <+: bytes))

/-- A comparison leaves the archive exactly if the archive ends within the string. -/
theorem strncmp_eq (nonzero : 0 ∉ b) (short : b.length < n) :
    strncmp a b n = if a <+: b then none else some (decide (Named a b)) := by
  induction a generalizing b n with
  | nil =>
    obtain ⟨n, rfl⟩ := Nat.exists_eq_succ_of_ne_zero (Nat.ne_zero_of_lt short)
    simp [strncmp]
  | cons x a ih =>
    obtain ⟨n, rfl⟩ := Nat.exists_eq_succ_of_ne_zero (Nat.ne_zero_of_lt short)
    cases b with
    | nil =>
      rw [strncmp, List.headD_nil, if_pos (Decidable.em (x = 0))]
      simp [Named, eq_comm (a := x)]
    | cons y b =>
      obtain ⟨here, there⟩ := not_or.mp (mt List.mem_cons.mpr nonzero)
      by_cases same : x = y
      · subst same
        have equal : ¬(x = 0 ∨ x ≠ x) := not_or.mpr ⟨Ne.symm here, not_not.mpr rfl⟩
        rw [strncmp, List.headD_cons, if_neg equal, List.tail_cons, ih there (Nat.lt_of_succ_lt_succ short)]
        have named : Named (x :: a) (x :: b) ↔ Named a b := by simp [Named, List.cons_prefix_cons]
        simp only [List.cons_prefix_cons, true_and, named]
      · simp [Named, strncmp, same, List.cons_prefix_cons, Ne.symm same]

/-- The name that an entry of an archive with terminated names has. -/
theorem prefix_terminated (nonzero : 0 ∉ a) (nonzero' : 0 ∉ b) (rest : List Byte) :
    ¬a ++ 0 :: rest <+: b ∧ (Named (a ++ 0 :: rest) b ↔ a = b) := by
  refine ⟨fun cut => nonzero' (cut.subset (by simp)), ?_⟩
  induction a generalizing b with
  | nil =>
    cases b with
    | nil => simp [Named]
    | cons y b =>
      simpa [Named, List.cons_prefix_cons] using fun zero =>
        absurd (List.mem_cons.mpr (.inl zero.symm)) nonzero'
  | cons x a ih =>
    obtain ⟨here, there⟩ := not_or.mp (mt List.mem_cons.mpr nonzero)
    cases b with
    | nil => simpa [Named, List.cons_prefix_cons] using here
    | cons y b =>
      rw [Named, List.cons_append, List.cons_append, List.cons_prefix_cons, ← Named,
        ih there (not_or.mp (mt List.mem_cons.mpr nonzero')).2, List.cons.injEq, eq_comm (a := x)]

/-! ## Any archive -/

/-- The name of a file to look for. -/
structure FileName where
  chars : List Byte
  nonzero : 0 ∉ chars
  short : chars.length < stringMaxSize

/-- The iterators that the search for a name reaches: it passes an entry that neither ends the
archive nor is the file. -/
inductive Reaches (name : List Byte) : List Byte → List Byte → Prop
  | start (iter : List Byte) : Reaches name iter iter
  | next {iter last : List Byte} {file : CpioFile} (entry : cpioEntry iter = some file)
      (more : ¬Named file.name trailer)
      (other : ¬Named file.name name) (reaches : Reaches name file.rest last) : Reaches name iter last

/-- At no entry that the search reaches the archive ends within the string that the name is compared with. -/
def NamesEnd (name archive : List Byte) : Prop :=
  ∀ iter file, Reaches name archive iter → cpioEntry iter = some file →
    ¬file.name <+: trailer ∧ (¬Named file.name trailer → ¬file.name <+: name)

theorem namesEnd_of_entry (entry : cpioEntry iter = some file) : NamesEnd name iter ↔
    (¬file.name <+: trailer ∧ (¬Named file.name trailer → ¬file.name <+: name)) ∧
      (¬Named file.name trailer → ¬Named file.name name → NamesEnd name file.rest) := by
  constructor
  · intro ends
    exact ⟨ends iter file (.start iter) entry,
      fun more other last file' reaches => ends last file' (.next entry more other reaches)⟩
  · rintro ⟨here, there⟩ last file' reaches entry'
    cases reaches with
    | start =>
      cases entry.symm.trans entry'
      exact here
    | next first more other reaches =>
      cases entry.symm.trans first
      exact there more other last file' reaches entry'

theorem cpioGetFile_eq (name iter : List Byte) : cpioGetFile name iter =
    match cpioNext iter with
    | none => none
    | some none => some none
    | some (some file) =>
      match strncmp file.name name stringMaxSize with
      | none => none
      | some true => some (some (file.contents, file.size))
      | some false => cpioGetFile name file.rest := by
  rw [cpioGetFile]
  split <;> simp only [*]

/-- One entry of the search. -/
theorem cpioGetFile_entry (name : FileName) (entry : cpioEntry iter = some file) :
    cpioGetFile name.chars iter =
      if file.name <+: trailer then none
      else if Named file.name trailer then some none
      else if file.name <+: name.chars then none
      else if Named file.name name.chars then some (some (file.contents, file.size))
      else cpioGetFile name.chars file.rest := by
  have next : cpioNext iter = if file.name <+: trailer then none else
      some (if Named file.name trailer then none else some file) := by
    rw [cpioNext, entry]
    dsimp only
    rw [strncmp_eq (by decide) (Nat.lt_succ_self _)]
    split <;> simp
  rw [cpioGetFile_eq, next]
  by_cases cut : file.name <+: trailer
  · simp [cut]
  by_cases ended : Named file.name trailer
  · simp [cut, ended]
  simp only [cut, ended, if_false, strncmp_eq name.nonzero name.short]
  by_cases cut' : file.name <+: name.chars
  · simp [cut']
  · by_cases same : Named file.name name.chars <;> simp [cut', same]

/-- The search returns exactly if every name ends in the archive, and the file that it returns lies
in the archive. -/
theorem cpioGetFile_spec (name : FileName) (iter : List Byte) :
    ((cpioGetFile name.chars iter).isSome ↔ NamesEnd name.chars iter) ∧
      ∀ file, cpioGetFile name.chars iter = some (some file) → file.1 <:+ iter ∧ file.2 ≤ file.1.length := by
  induction length : iter.length using Nat.strong_induction_on generalizing iter with
  | _ n ih =>
    cases entry : cpioEntry iter with
    | none =>
      have ends : NamesEnd name.chars iter := by
        intro last file reaches entry'
        cases reaches with
        | start => cases entry.symm.trans entry'
        | next first => cases entry.symm.trans first
      simp [cpioGetFile_eq, cpioNext, entry, ends]
    | some file =>
      obtain ⟨contents, size, rest, shorter⟩ := cpioEntry_some entry
      rw [namesEnd_of_entry entry, cpioGetFile_entry name entry]
      by_cases cut : file.name <+: trailer
      · simp [cut]
      by_cases ended : Named file.name trailer
      · simp [cut, ended]
      by_cases cut' : file.name <+: name.chars
      · simp [cut, ended, cut']
      by_cases same : Named file.name name.chars
      · simp [cut, ended, cut', same, contents, size]
      · obtain ⟨returns, inside⟩ := ih _ (length ▸ shorter) file.rest rfl
        simp only [cut, ended, cut', same, if_false, returns, not_false_eq_true, true_and, forall_const]
        exact fun found got => ⟨(inside found got).1.trans rest, (inside found got).2⟩

/-! ## Encoded files -/

/-- A file with the header fields that are not its sizes. -/
structure ArchiveFile where
  fields : List Byte
  name : List Byte
  contents : List Byte
  header : fields.length = 20
  nonzero : 0 ∉ name
  short : name.length + 1 < 2 ^ 16
  small : contents.length < 2 ^ 32

def encodeField (n : Nat) : List Byte := [.ofNat 8 n, .ofNat 8 (n / 256)]

/-- Bytes with a byte of padding if their number is odd. -/
def padded (bytes : List Byte) : List Byte := bytes ++ List.replicate (bytes.length % 2) 0

/-- The entry of a file in the binary format. -/
def ArchiveFile.encode (f : ArchiveFile) : List Byte :=
  f.fields ++ encodeField (f.name.length + 1) ++ encodeField (f.contents.length / 2 ^ 16) ++
    encodeField (f.contents.length % 2 ^ 16) ++ padded (f.name ++ [0]) ++ padded f.contents

theorem field_encodeField {offset : Nat} (before after : List Byte)
    (length : before.length = offset) (small : n < 2 ^ 16) :
    field (before ++ (encodeField n ++ after)) offset = n := by
  subst length
  simp [field, encodeField]
  omega

theorem memiterAdvance_append {v : Nat} (a b : List Byte) (length : a.length = v) :
    memiterAdvance (a ++ b) v = some b := by
  subst length
  simp [memiterAdvance]

theorem padded_length (bytes : List Byte) : (padded bytes).length = (bytes.length + 1) / 2 * 2 := by
  simp only [padded, List.length_append, List.length_replicate]
  omega

theorem cpioEntry_encode (f : ArchiveFile) (rest : List Byte) : cpioEntry (f.encode ++ rest) =
    some ⟨padded (f.name ++ [0]) ++ (padded f.contents ++ rest), padded f.contents ++ rest,
      f.contents.length, rest⟩ := by
  have header := f.header
  have small := f.small
  have nameSize : field (f.encode ++ rest) 20 = f.name.length + 1 := by
    rw [ArchiveFile.encode]
    simp only [List.append_assoc]
    exact field_encodeField _ _ header f.short
  have high : field (f.encode ++ rest) 22 = f.contents.length / 2 ^ 16 := by
    rw [ArchiveFile.encode, List.append_assoc, List.append_assoc, List.append_assoc,
      List.append_assoc _ (encodeField (_ / _))]
    exact field_encodeField _ _ (by simp [encodeField, header]) (by omega)
  have low : field (f.encode ++ rest) 24 = f.contents.length % 2 ^ 16 := by
    rw [ArchiveFile.encode, List.append_assoc, List.append_assoc, List.append_assoc _ (encodeField (_ % _))]
    exact field_encodeField _ _ (by simp [encodeField, header]) (by omega)
  have size : f.contents.length / 2 ^ 16 * 2 ^ 16 + f.contents.length % 2 ^ 16 = f.contents.length := by omega
  have name : memiterAdvance (f.encode ++ rest)
      26 = some (padded (f.name ++ [0]) ++ (padded f.contents ++ rest)) := by
    rw [ArchiveFile.encode, List.append_assoc, List.append_assoc]
    exact memiterAdvance_append _ _ (by simp [encodeField, header])
  have length : (padded (f.name ++ [0])).length = (f.name.length + 1 + 1) / 2 * 2 := by simp [padded_length]
  simp only [cpioEntry, name, nameSize, high, low, size, Option.bind_eq_bind, Option.bind_some,
    memiterAdvance_append _ _ length, memiterAdvance_append _ _ (padded_length f.contents)]

/-- The bytes from the name of an entry on. -/
theorem padded_terminated (name rest : List Byte) :
    ∃ more, padded (name ++ [0]) ++ rest = name ++ 0 :: more :=
  ⟨List.replicate ((name ++ [0]).length % 2) 0 ++ rest, by simp [padded]⟩

/-- In the encoding of files, followed by the end marker, the search finds the contents of the first
one with the name. -/
def FindsFirst (name : FileName) : Prop :=
  ∀ files : List ArchiveFile, (∀ f ∈ files, f.name ≠ trailer) →
    ∀ last : ArchiveFile, last.name = trailer → ∀ rest,
    ∃ found, cpioGetFile name.chars (files.flatMap ArchiveFile.encode ++ (last.encode ++ rest)) = some found ∧
      found.map (fun file => file.1.take file.2) = (files.find? (·.name = name.chars)).map (·.contents)

theorem finds_first (name : FileName) : FindsFirst name := by
  intro files ordinary last marker rest
  induction files with
  | nil =>
    obtain ⟨more, bytes⟩ := padded_terminated last.name (padded last.contents ++ rest)
    obtain ⟨whole, ended⟩ := prefix_terminated last.nonzero (show 0 ∉ trailer by decide) more
    refine ⟨none, ?_, rfl⟩
    rw [List.flatMap_nil, List.nil_append, cpioGetFile_entry name (cpioEntry_encode last rest)]
    rw [bytes, if_neg whole, if_pos (ended.mpr marker)]
  | cons f files ih =>
    obtain ⟨here, others⟩ := List.forall_mem_cons.mp ordinary
    rw [List.flatMap_cons, List.append_assoc]
    generalize files.flatMap ArchiveFile.encode ++ (last.encode ++ rest) = archive at ih ⊢
    obtain ⟨more, bytes⟩ := padded_terminated f.name (padded f.contents ++ archive)
    obtain ⟨whole, ended⟩ := prefix_terminated f.nonzero (show 0 ∉ trailer by decide) more
    obtain ⟨whole', same⟩ := prefix_terminated f.nonzero name.nonzero more
    rw [cpioGetFile_entry name (cpioEntry_encode f archive)]
    rw [bytes, if_neg whole, if_neg (mt ended.mp here), if_neg whole']
    by_cases wanted : f.name = name.chars
    · rw [if_pos (same.mpr wanted)]
      refine ⟨_, rfl, ?_⟩
      simp [padded, wanted]
    · rw [if_neg (mt same.mp wanted), List.find?_cons_of_neg (by simpa using wanted)]
      exact ih others

/-- In any archive the search returns, and what it returns lies in the archive, exactly if the names
that it reaches end in the archive. In the encoding of files it finds the first one with the name. -/
theorem cpio_get_file_correct (name : FileName) :
    (∀ archive, (∃ found, cpioGetFile name.chars archive = some found ∧
      ∀ file, found = some file → file.1 <:+ archive ∧ file.2 ≤ file.1.length) ↔
        NamesEnd name.chars archive) ∧
    FindsFirst name := by
  refine ⟨fun archive => ?_, finds_first name⟩
  obtain ⟨returns, inside⟩ := cpioGetFile_spec name archive
  rw [← returns, Option.isSome_iff_exists]
  constructor
  · rintro ⟨found, got, -⟩
    exact ⟨found, got⟩
  · rintro ⟨found, got⟩
    exact ⟨found, got, fun file same => inside file (got.trans (congrArg some same))⟩

/-- The file name `vm`. -/
def shortName : FileName := ⟨[0x76, 0x6d], by decide, by decide⟩

/-- An archive of one header with an empty name: the comparison reads the byte behind the archive. -/
theorem cpio_get_file_reads_outside : cpioGetFile shortName.chars (List.replicate 26 0) = none := by
  rw [cpioGetFile_eq, show cpioNext (List.replicate 26 0) = none by decide]

end Hafnium.Load
