import IronCondor.Data.CsvFiles
import IronCondor.Lib.Wire
import Mathlib.Data.Set.Function

/-! # The identity of a CSV directory

The directory hash sees, file after file in the order of the names, a name, a separator and the
hex form of the file's own hash. -/
namespace IronCondor

open Checked ExceptRun Wire

section Hex

theorem utf8_ofList (l : List Char) :
    (String.ofList l).toUTF8.toList = l.flatMap String.utf8EncodeChar := by
  rw [byteArray_toList]
  change (String.ofList l).toByteArray.data.toList = _
  rw [String.toByteArray_ofList, List.utf8Encode, List.data_toByteArray]

theorem utf8Size_digitChar : ∀ n < 16, (Nat.digitChar n).utf8Size = 1 := by decide

/-- The hex form takes two bytes a byte. -/
theorem length_toHex (bytes : List UInt8) :
    (toHex bytes).toUTF8.toList.length = 2 * bytes.length := by
  rw [toHex, utf8_ofList]
  induction bytes with
  | nil => rfl
  | cons byte bytes ih =>
    have hbyte := byte.toNat_lt
    have hhigh := utf8Size_digitChar (byte.toNat / 16) (by omega)
    have hlow := utf8Size_digitChar (byte.toNat % 16) (by omega)
    rw [List.flatMap_cons, List.flatMap_append, List.length_append, ih]
    simp only [hexByte, List.flatMap_cons, List.flatMap_nil, List.length_append,
      String.length_utf8EncodeChar, hhigh, hlow, List.length_nil, List.length_cons]
    omega

end Hex

/-- The name and the content of a file. -/
abbrev NamedFile := String × List UInt8

/-- The name of the file has no NUL. -/
def NulFree (file : NamedFile) : Prop := (0 : UInt8) ∉ file.1.toUTF8.toList

section Preimage

variable [Sha256]

/-- What the directory hash has seen after these files. -/
def directoryPreimage (files : List NamedFile) : List UInt8 :=
  files.foldl (fun hashed file => CsvFeed.hashEntry hashed file.1 file.2) []

/-- The bytes a file adds. -/
def fileBytes (file : NamedFile) : List UInt8 :=
  file.1.toUTF8.toList ++ 0 :: (toHex (Sha256.digest file.2)).toUTF8.toList

theorem hashEntries_eq (hashed : List UInt8) (files : List NamedFile) :
    files.foldl (fun hashed file => CsvFeed.hashEntry hashed file.1 file.2) hashed =
      hashed ++ (files.map fileBytes).flatten := by
  induction files generalizing hashed with
  | nil => simp
  | cons file files ih =>
    rw [List.foldl_cons, ih, CsvFeed.hashEntry, List.map_cons, List.flatten_cons, fileBytes]
    simp only [List.append_assoc, List.cons_append, List.nil_append]

/-- Among known contents that the hash tells apart, what a file adds tells its name and its
content. -/
theorem fileBytes_delimits (hlength : ∀ bytes, (Sha256.digest bytes).length = 32)
    {known : Set (List UInt8)} (hknown : Set.InjOn Sha256.digest known) :
    Delimits (fun (file : NamedFile) bytes => NulFree file ∧ file.2 ∈ known ∧
      bytes = fileBytes file) Eq := by
  rintro ⟨name, content⟩ ⟨name', content'⟩ _ _ s t ⟨hname, hcontent, rfl⟩
    ⟨hname', hcontent', rfl⟩ h
  simp only [fileBytes, List.append_assoc, List.cons_append] at h
  obtain ⟨hsame, hrest⟩ := terminated_append_inj hname hname' h
  have hlengths : (toHex (Sha256.digest content)).toUTF8.toList.length =
      (toHex (Sha256.digest content')).toUTF8.toList.length := by
    rw [length_toHex, length_toHex, hlength, hlength]
  obtain ⟨hhex, hst⟩ := List.append_inj hrest hlengths
  have hdigest := toHex_injective (utf8_injective hhex)
  exact ⟨Prod.ext (utf8_injective hsame) (hknown hcontent hcontent' hdigest), hst⟩

/-- The directory hash sees different bytes for different files, whatever their number. -/
theorem directoryPreimage_inj (hlength : ∀ bytes, (Sha256.digest bytes).length = 32)
    {known : Set (List UInt8)} (hknown : Set.InjOn Sha256.digest known)
    {files files' : List NamedFile} (hfiles : ∀ file ∈ files, NulFree file ∧ file.2 ∈ known)
    (hfiles' : ∀ file ∈ files', NulFree file ∧ file.2 ∈ known) :
    directoryPreimage files = directoryPreimage files' ↔ files = files' := by
  refine ⟨fun h => ?_, congrArg directoryPreimage⟩
  rw [directoryPreimage, directoryPreimage, hashEntries_eq, hashEntries_eq, List.nil_append,
    List.nil_append] at h
  have hparts : ∀ files : List NamedFile, (∀ file ∈ files, NulFree file ∧ file.2 ∈ known) →
      List.Forall₂ (fun (file : NamedFile) bytes => NulFree file ∧ file.2 ∈ known ∧
        bytes = fileBytes file) files (files.map fileBytes) := by
    intro files hfiles
    rw [List.forall₂_map_right_iff, List.forall₂_same]
    exact fun file hfile => ⟨(hfiles file hfile).1, (hfiles file hfile).2, rfl⟩
  have hne : ∀ (file : NamedFile) bytes, (NulFree file ∧ file.2 ∈ known ∧
      bytes = fileBytes file) → bytes ≠ [] := by
    rintro file _ ⟨-, -, rfl⟩
    simp [fileBytes]
  rw [← List.forall₂_eq_eq_eq]
  exact (fileBytes_delimits hlength hknown).stream hne (hparts files hfiles)
    (hparts files' hfiles') h

end Preimage

section Opened

variable {F : Type} [AnalyticFloat F] [FloatText F] [CsvDecoder] [DecimalArith] [TypeSizes]
  [Sha256] {limits : ResourceLimits}

/-- The name of an entry with its bytes. -/
def DirEntry.named (entry : DirEntry) : NamedFile :=
  match entry.state with
  | .Regular bytes => (entry.name, bytes)
  | _ => (entry.name, [])

theorem readFile_hashed {loop loop' : CsvFeed.Loop} {file : DirEntry × Nat}
    (h : CsvFeed.readFile F limits loop file = .ok loop') :
    loop'.hashed = CsvFeed.hashEntry loop.hashed file.1.named.1 file.1.named.2 := by
  obtain ⟨⟨name, state⟩, index⟩ := file
  unfold CsvFeed.readFile at h
  cases state with
  | Missing msg => exact absurd h (by simp [bind_ok_iff])
  | Special => exact absurd h (by simp [bind_ok_iff])
  | Regular bytes =>
    simp only [bind_ok_iff, pure_ok_iff] at h
    obtain ⟨_, -, _, -, _, -, _, -, _, -, _, -, _, -, rfl⟩ := h
    rfl

theorem readFiles_hashed {files : List (DirEntry × Nat)} {loop last : CsvFeed.Loop}
    (h : files.foldlM (CsvFeed.readFile F limits) loop = .ok last) :
    last.hashed = (files.map fun file => file.1.named).foldl
      (fun hashed file => CsvFeed.hashEntry hashed file.1 file.2) loop.hashed := by
  induction files generalizing loop with
  | nil =>
    obtain rfl := foldlM_nil_ok.1 h
    rfl
  | cons file files ih =>
    obtain ⟨next, hfile, hfiles⟩ := foldlM_cons_ok.1 h
    rw [ih hfiles, readFile_hashed hfile, List.map_cons, List.foldl_cons]

omit [CsvDecoder] [DecimalArith] [TypeSizes] [Sha256] in
theorem scan_listed {entries seen listed : List DirEntry}
    (h : entries.foldlM (CsvFeed.scan limits) seen = .ok listed) : listed = seen ++ entries := by
  induction entries generalizing seen with
  | nil =>
    rw [List.append_nil]
    exact (foldlM_nil_ok.1 h).symm
  | cons entry entries ih =>
    obtain ⟨next, hentry, hentries⟩ := foldlM_cons_ok.1 h
    have hnext : next = seen ++ [entry] := by
      obtain ⟨name, state⟩ := entry
      cases state with
      | Special => cases hentry
      | Missing _ | Regular _ =>
        simp only [CsvFeed.scan, bind_ok_iff, pure_ok_iff] at hentry
        obtain ⟨_, -, _, -, _, -, rfl⟩ := hentry
        rfl
    rw [ih hentries, hnext, List.append_assoc, List.singleton_append]

/-- The identity of an opened directory is the digest of what its entries add in the order of
their names. -/
theorem csvFeed_open_sha256 {directories : Directories} {path : String} {csv : CsvFeed}
    (h : CsvFeed.open F directories path limits = .ok csv) :
    ∃ entries files : List DirEntry, directories path = .Directory entries ∧
      files.Perm entries ∧ files.Pairwise (fun a b => a.name ≤ b.name) ∧
      csv.sha256 = toHex (Sha256.digest (directoryPreimage (files.map DirEntry.named))) := by
  unfold CsvFeed.open at h
  split at h
  · cases h
  · cases h
  · rename_i entries hpath
    simp only [bind_ok_iff, pure_ok_iff] at h
    obtain ⟨listed, hlisted, loop, hloop, tapeMeta, -, rfl⟩ := h
    obtain rfl : listed = entries := scan_listed hlisted
    have hsorted := @List.pairwise_mergeSort _ (fun a b : DirEntry => decide (a.name ≤ b.name))
      (fun a b c hab hbc => by simpa using (of_decide_eq_true hab).trans (of_decide_eq_true hbc))
      (fun a b => by simpa using le_total a.name b.name) listed
    refine ⟨_, _, hpath, List.mergeSort_perm _ _, hsorted.imp of_decide_eq_true, ?_⟩
    have hnamed : ∀ files : List DirEntry,
        (files.zipIdx.map fun file => file.1.named) = files.map DirEntry.named := by
      intro files
      rw [show (fun file : DirEntry × Nat => file.1.named) = DirEntry.named ∘ Prod.fst from rfl,
        ← List.map_map, List.zipIdx_map_fst]
    rw [readFiles_hashed hloop, hnamed]
    rfl

end Opened

end IronCondor
