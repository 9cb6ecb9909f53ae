import IronCondor.Data.SmallFiles

/-! # The two file feeds agree

The same typed rows, written as a Parquet file or as a directory of CSV files, are accepted alike
and give the same tape. -/
namespace IronCondor

open Checked ExceptRun

section Agreement

variable {F : Type} [AnalyticFloat F] [FloatText F] [ParquetDecoder F] [CsvDecoder]
  [DecimalArith] [TypeSizes] [Sha256] {snapshots : List (List (TypedRow F))}
  {limits : ResourceLimits}

omit [FloatText F] [CsvDecoder] in
/-- Opening a Parquet file of the snapshots materialises them and checks their tape. -/
theorem parquetFeed_open {files : Files} {path : String} {bytes : List UInt8}
    {image : ParquetImage F} (hpath : files path = .Regular bytes)
    (hwithin : image.Within limits bytes) :
    ParquetFeed.open files path limits = do
      let snapshots ← ParquetFeed.readTape bytes limits
      let tapeMeta ← TapeMeta.fromTape (toHex (Sha256.digest bytes)) snapshots
      return { snapshots, tapeMeta, path, sha256 := toHex (Sha256.digest bytes) } := by
  simp only [ParquetFeed.open, hpath, require, if_pos hwithin.file, ok_bind]
  rfl

/-- The feeds accept the same snapshots alike, and yield equal tapes with equal first timestamp
and final step. -/
theorem file_feeds_agree {files : Files} {file : String} {bytes : List UInt8}
    {image : ParquetImage F} {directories : Directories} {directory : String}
    {entries named : List DirEntry} (hnonempty : ∀ rows ∈ snapshots, rows ≠ [])
    (hfile : files file = .Regular bytes) (hparquet : WritesParquet snapshots bytes image)
    (hdirectory : directories directory = .Directory entries)
    (hcsv : WritesDirectory snapshots entries named)
    (hwithin : image.Within limits bytes) (hwithin' : FilesWithin limits named) :
    ((∃ parquet, ParquetFeed.open files file limits = .ok parquet) ↔
      ∃ csv, CsvFeed.open F directories directory limits = .ok csv) ∧
    ∀ parquet csv, ParquetFeed.open files file limits = .ok parquet →
      CsvFeed.open F directories directory limits = .ok csv →
      parquet.feed.tape = csv.feed.tape ∧
        parquet.feed.tapeMeta.firstTs = csv.feed.tapeMeta.firstTs ∧
        parquet.feed.tapeMeta.finalStep = csv.feed.tapeMeta.finalStep := by
  have htape : ∀ tape, ParquetFeed.readTape bytes limits = .ok tape ↔ ∃ last,
      (named.zipIdx.foldlM (CsvFeed.readFile F limits) .init) = .ok last ∧
        last.buffer.tape = tape := by
    intro tape
    rw [readTape_eq_ok hparquet hwithin hnonempty]
    have hread := fun final => readFiles_eq_ok 0 .init final
      hcsv.files hnonempty hwithin'.file (by simpa [CsvFeed.Loop.init] using hwithin'.decoded)
    constructor
    · rintro ⟨final, hmaterialises, rfl⟩
      obtain ⟨last, hlast, rfl⟩ := (hread final).2 hmaterialises
      exact ⟨last, hlast, rfl⟩
    · rintro ⟨last, hlast, rfl⟩
      exact ⟨last.buffer, (hread last.buffer).1 ⟨last, hlast, rfl⟩, rfl⟩
  simp only [parquetFeed_open hfile hwithin, csvFeed_open hdirectory hcsv hwithin', bind_ok_iff,
    pure_ok_iff]
  refine ⟨⟨?_, ?_⟩, ?_⟩
  · rintro ⟨_, tape, hread, tapeMeta, hmeta, rfl⟩
    obtain ⟨last, hlast, rfl⟩ := (htape tape).1 hread
    exact ⟨_, last, hlast, _, TapeMeta.fromTape_identity hmeta, rfl⟩
  · rintro ⟨_, last, hlast, tapeMeta, hmeta, rfl⟩
    exact ⟨_, last.buffer.tape, (htape _).2 ⟨last, hlast, rfl⟩, _,
      TapeMeta.fromTape_identity hmeta, rfl⟩
  · rintro _ _ ⟨tape, hread, tapeMeta, hmeta, rfl⟩ ⟨last, hlast, tapeMeta', hmeta', rfl⟩
    obtain ⟨last', hlast', rfl⟩ := (htape tape).1 hread
    cases hlast.symm.trans hlast'
    have hsame := (TapeMeta.fromTape_identity hmeta).symm.trans hmeta'
    cases hsame
    exact ⟨rfl, rfl, rfl⟩

end Agreement

open SmallFiles SmallMarket in
/-- Both feeds of the small chain open, with one tape. -/
theorem file_feeds_agree_small :
    ∃ parquet csv, ParquetFeed.open SmallFiles.files "spx.parquet" SmallFiles.limits = .ok parquet ∧
      CsvFeed.open Decimal directories "spx" SmallFiles.limits = .ok csv ∧
      parquet.feed.tape = csv.feed.tape := by
  have hnonempty : ∀ rows ∈ SmallFiles.snapshots, rows ≠ [] := by
    rintro _ (_ | ⟨_, _ | ⟨_, ⟨⟩⟩⟩) <;> simp
  have hfile : SmallFiles.files "spx.parquet" = .Regular parquetBytes := rfl
  have hdirectory : directories "spx" = .Directory [secondFile, firstFile] := rfl
  obtain ⟨hopen, hsame⟩ := file_feeds_agree hnonempty hfile parquet_writes hdirectory
    directory_writes parquet_within directory_within
  obtain ⟨parquet, hparquet⟩ := exists_eq_ok
    (r := ParquetFeed.open SmallFiles.files "spx.parquet" SmallFiles.limits) (by decide +kernel)
  obtain ⟨csv, hcsv⟩ := hopen.1 ⟨parquet, hparquet⟩
  exact ⟨parquet, csv, hparquet, hcsv, (hsame parquet csv hparquet hcsv).1⟩

end IronCondor
