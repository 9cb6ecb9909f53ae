import IronCondor.Config
import IronCondor.Data.Digest

/-! # The Parquet feed

A file is opened once: its size is bounded, its bytes are hashed, and the same bytes are parsed
into the tape. A batch shares one parsed tape among its runs. -/
namespace IronCondor

open Checked

/-- What the operating system answers for a path. -/
inductive FileState where
  | Missing (msg : String)
  | Special
  | Regular (bytes : List UInt8)

/-- The file system the feeds read from. -/
abbrev Files := String → FileState

/-- The decoding of the bytes of a Parquet file, with the ceilings it enforces as it goes. -/
class ParquetReader where
  readTape : List UInt8 → ResourceLimits → Outcome (List ChainSnapshot)

/-- The parsed tape of a file, with the identity of the bytes it was parsed from. -/
structure ParquetTape where
  snapshots : List ChainSnapshot
  tapeMeta : TapeMeta
  path : String
  sha256 : String

/-- The feed of a tape, its cursor at the start. -/
def ParquetTape.feed (tape : ParquetTape) : Feed where
  tapeMeta := tape.tapeMeta
  source := .Parquet tape.path tape.sha256
  tape := tape.snapshots

section Open

variable [Sha256] [ParquetReader] {files : Files} {path expected : String}
  {limits : ResourceLimits} {tape : ParquetTape}

/-- `ParquetFeed::open`; the size ceiling comes first, and the hash is of the bytes that are
parsed. -/
def ParquetFeed.open (files : Files) (path : String) (limits : ResourceLimits) : Outcome ParquetTape :=
  match files path with
  | .Missing msg => .error (.DataIo msg)
  | .Special => .error (.Conversion s!"feed path is not a regular file: {path}")
  | .Regular bytes => do
    require ((bytes.length : Int) ≤ limits.maxFileBytes.value)
      (.TapeTooLarge "max_file_bytes" bytes.length limits.maxFileBytes.value)
    let sha256 := toHex (Sha256.digest bytes)
    let snapshots ← ParquetReader.readTape bytes limits
    let tapeMeta ← TapeMeta.fromTape sha256 snapshots
    return { snapshots, tapeMeta, path, sha256 }

/-- `ParquetFeed::open_verified`: a recorded identity must be that of the bytes read. -/
def ParquetFeed.openVerified (files : Files) (path expectedSha256 : String) (limits : ResourceLimits) :
    Outcome ParquetTape := do
  let tape ← ParquetFeed.open files path limits
  require (expectedSha256 = "" ∨ tape.sha256 = expectedSha256) (.Conversion
    s!"parquet file sha256 mismatch: recorded {expectedSha256}, recomputed {tape.sha256}")
  return tape

/-- `SharedParquetTape::materialise`. -/
def SharedParquetTape.materialise (files : Files) (path expectedSha256 : String)
    (limits : ResourceLimits) : Outcome ParquetTape :=
  ParquetFeed.openVerified files path expectedSha256 limits

/-- An opened tape carries the path, and the hash of the bytes as its identity. -/
theorem ParquetFeed.open_eq_ok (h : ParquetFeed.open files path limits = .ok tape) :
    tape.path = path ∧ tape.tapeMeta.dataIdentity = tape.sha256 ∧
      ∃ bytes, files path = .Regular bytes ∧ tape.sha256 = toHex (Sha256.digest bytes) := by
  unfold ParquetFeed.open at h
  split at h
  · cases h
  · cases h
  · rename_i bytes hbytes
    simp only [bind_ok_iff, pure_ok_iff] at h
    obtain ⟨_, -, snapshots, -, tapeMeta, hmeta, rfl⟩ := h
    refine ⟨rfl, ?_, bytes, hbytes, rfl⟩
    unfold TapeMeta.fromTape at hmeta
    split at hmeta
    · cases hmeta
    · simp only [bind_ok_iff, pure_ok_iff] at hmeta
      obtain ⟨_, -, _, -, rfl⟩ := hmeta
      rfl

/-- A verified open is an open whose hash is the recorded one, if one is recorded. -/
theorem ParquetFeed.openVerified_eq_ok :
    ParquetFeed.openVerified files path expected limits = .ok tape ↔
      ParquetFeed.open files path limits = .ok tape ∧ (expected = "" ∨ tape.sha256 = expected) := by
  simp only [ParquetFeed.openVerified, bind_ok_iff, require_eq_ok, pure_ok_iff]
  constructor
  · rintro ⟨_, hopen, _, hsha, rfl⟩
    exact ⟨hopen, hsha⟩
  · rintro ⟨hopen, hsha⟩
    exact ⟨tape, hopen, (), hsha, rfl⟩

end Open

end IronCondor
