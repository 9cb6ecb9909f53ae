import IronCondor.Batch.Sharing

/-! # The recorded identity of a file

A configuration may record the hash of its file. The batch checks the hash of the bytes it reads
against it, and a single run does not: the two agree exactly where the check would pass. -/
namespace IronCondor

open Checked OrderBook

/-- A recorded identity is that of the bytes, if the configuration is valid and the bytes open. -/
def BacktestConfig.RecordsIdentity [Sha256] [ParquetReader] (config : BacktestConfig) (files : Files)
    (path sha256 : String) : Prop :=
  config.validate = .ok () → sha256 ≠ "" → ∀ bytes, files path = .Regular bytes →
    (∃ tape, ParquetFeed.open files path config.limits = .ok tape) →
    toHex (Sha256.digest bytes) = sha256

section Feeds

variable [Sha256] [ParquetReader] {files : Files} {path sha256 : String} {config : BacktestConfig}

/-- A single run opens its file. -/
theorem runBacktestFeed_eq (hsource : config.dataSource = .Parquet path sha256) :
    runBacktestFeed files config = config.validate.bind fun _ =>
      match ParquetFeed.open files path config.limits with
      | .ok tape => .ok tape.feed
      | .error error => .error error := by
  simp only [runBacktestFeed, hsource]
  cases config.validate <;> cases ParquetFeed.open files path config.limits <;> rfl

theorem runBacktestFeed_eq_ok (hsource : config.dataSource = .Parquet path sha256) {feed : Feed}
    (h : runBacktestFeed files config = .ok feed) :
    config.validate = .ok () ∧ ∃ tape, ParquetFeed.open files path config.limits = .ok tape := by
  rw [runBacktestFeed_eq hsource] at h
  obtain ⟨_, hvalid, h⟩ := bind_ok_iff.1 h
  refine ⟨hvalid, ?_⟩
  split at h
  · rename_i tape hopen
    exact ⟨tape, hopen⟩
  · cases h

variable [SimulatorClient] {materialisation : Option SimulatorMaterialisation}

/-- The feed of a one-run batch. -/
def batchFeed (files : Files) (materialisation : Option SimulatorMaterialisation)
    (config : BacktestConfig) : Outcome Feed := do
  config.validate
  openFeed files materialisation (materialiseSharedTapes files [⟨⟨0, u32.contains_zero⟩, config⟩]) config

/-- A one-run batch opens its file, and verifies it. -/
theorem batchFeed_eq (hsource : config.dataSource = .Parquet path sha256) :
    batchFeed files materialisation config = config.validate.bind fun _ =>
      match ParquetFeed.openVerified files path sha256 config.limits with
      | .ok tape => .ok tape.feed
      | .error error => .error (.Data error.display) := by
  have hcache : (materialiseSharedTapes files [⟨⟨0, u32.contains_zero⟩, config⟩])[path]? =
      some (cached (ParquetFeed.openVerified files path sha256 config.limits)) :=
    materialiseSharedTapes_get (fun run hin => by
      rw [List.mem_singleton.1 hin]
      exact ⟨hsource, rfl⟩) (List.cons_ne_nil _ _)
  rw [batchFeed, openFeed_cached hsource hcache]
  rfl

/-- Where the recorded identity is that of the bytes, both paths are served one feed, or none. -/
theorem feeds_agree (hsource : config.dataSource = .Parquet path sha256)
    (h : config.RecordsIdentity files path sha256) :
    (∃ feed, runBacktestFeed files config = .ok feed ∧
        batchFeed files materialisation config = .ok feed) ∨
      (∃ error, runBacktestFeed files config = .error error) ∧
        ∃ error, batchFeed files materialisation config = .error error := by
  rw [runBacktestFeed_eq hsource, batchFeed_eq hsource]
  cases hvalid : config.validate with
  | error error => exact .inr ⟨⟨error, rfl⟩, error, rfl⟩
  | ok _ =>
    cases hopen : ParquetFeed.open files path config.limits with
    | error error =>
      refine .inr ⟨⟨error, rfl⟩, ?_⟩
      cases hverified : ParquetFeed.openVerified files path sha256 config.limits with
      | error error => exact ⟨_, rfl⟩
      | ok tape =>
        rw [(ParquetFeed.openVerified_eq_ok.1 hverified).1] at hopen
        cases hopen
    | ok tape =>
      obtain ⟨-, -, bytes, hbytes, hsha⟩ := ParquetFeed.open_eq_ok hopen
      have hverified : ParquetFeed.openVerified files path sha256 config.limits = .ok tape :=
        ParquetFeed.openVerified_eq_ok.2 ⟨hopen, or_iff_not_imp_left.2 fun hne =>
          hsha.trans (h hvalid hne bytes hbytes ⟨tape, hopen⟩)⟩
      rw [hverified]
      exact .inl ⟨tape.feed, rfl, rfl⟩

end Feeds

section Programs

variable {M T α β : Type}

/-- A program run on a disk. -/
def FsProgram.exec (refuses : FsOp M T → Option String) (p : FsProgram M T α) (disk : Disk M T) :
    Outcome α × Disk M T :=
  Prog.run (FsOp.exec refuses) p.run disk

/-- What a program returns may be rewritten; the disk does not notice. -/
theorem FsProgram.exec_map {refuses : FsOp M T → Option String} {p : FsProgram M T α} {f : α → β}
    {disk : Disk M T} : FsProgram.exec refuses (p >>= fun a => pure (f a)) disk =
      ((p.exec refuses disk).1.map f, (p.exec refuses disk).2) := by
  refine (Prog.run_bind (p := p.run)).trans ?_
  unfold FsProgram.exec
  cases (Prog.run (FsOp.exec refuses) p.run disk).1 <;> rfl

end Programs

section Paths

variable (S B M T : Type) {R E : Type} [DecimalArith] [DecimalSums] [Strategy S R] [SeedableRng R]
  [StrategyFactory S E] [SummaryMetrics M] [Book B ObOrderId] [Sha256] [ParquetReader]
  [SerdeJson RunIdPreimage] [TableEncoders M T] [Build] (files : Files) (strategy : StrategySpec)
  (exit : E) (config : BacktestConfig)

/-- `run_backtest`, and `write_bundle` on its run. -/
def runAndWrite : FsProgram M T BundlePath := do
  let run ← liftOutcome (runBacktest S B files config strategy exit)
  writeBundle T run config strategy

variable {S B M T files strategy exit config} in
theorem runAndWrite_error {error : BacktestError} (h : runBacktestFeed files config = .error error) :
    (runAndWrite S B M T files strategy exit config).run = .ret (.error error) := by
  unfold runAndWrite runBacktest
  rw [h]
  rfl

variable [SimulatorClient] (materialisation : Option SimulatorMaterialisation)

/-- A batch of this one run. -/
def runAlone : FsProgram M T RunSummary :=
  runOne S B M T files strategy exit materialisation
    (materialiseSharedTapes files [⟨⟨0, u32.contains_zero⟩, config⟩]) config

variable {S B M T files strategy exit config materialisation}

theorem runAlone_eq : runAlone S B M T files strategy exit config materialisation =
    runFrom S B M T strategy exit config (openFeed files materialisation
      (materialiseSharedTapes files [⟨⟨0, u32.contains_zero⟩, config⟩]) config) := rfl

theorem runAlone_error {error : BacktestError}
    (h : batchFeed files materialisation config = .error error) :
    (runAlone S B M T files strategy exit config materialisation).run = .ret (.error error) := by
  rw [runAlone_eq]
  unfold batchFeed at h
  cases hvalid : config.validate with
  | error first =>
    rw [hvalid] at h
    cases h
    unfold runFrom
    rw [hvalid]
    rfl
  | ok _ =>
    rw [hvalid] at h
    have hfeed : openFeed files materialisation
      (materialiseSharedTapes files [⟨⟨0, u32.contains_zero⟩, config⟩]) config = .error error := h
    rw [hfeed, runFrom_error, hvalid]

/-- On one feed the two paths succeed together, and leave the same disk. -/
theorem paths_agree {feed : Feed} (hsingle : runBacktestFeed files config = .ok feed)
    (hbatch : batchFeed files materialisation config = .ok feed)
    (refuses : FsOp M T → Option String) (disk : Disk M T) :
    ((∃ path, ((runAndWrite S B M T files strategy exit config).exec refuses disk).1 = .ok path) ↔
      ∃ summary, ((runAlone S B M T files strategy exit config materialisation).exec refuses
        disk).1 = .ok summary) ∧
    ((runAndWrite S B M T files strategy exit config).exec refuses disk).2 =
      ((runAlone S B M T files strategy exit config materialisation).exec refuses disk).2 := by
  obtain ⟨_, hvalid, hopen⟩ := bind_ok_iff.1 hbatch
  rw [runAlone_eq, hopen]
  unfold runAndWrite runBacktest runFrom
  rw [hsingle, hvalid]
  simp only [ok_bind]
  cases hrun : (runSpecWithFeed S B config feed strategy exit : Outcome (PopulatedRun M)) with
  | error error => exact ⟨⟨fun ⟨_, h⟩ => (nomatch h), fun ⟨_, h⟩ => (nomatch h)⟩, rfl⟩
  | ok run =>
    have hmap : FsProgram.exec refuses (writeBundle T run config strategy >>= fun path =>
        pure (summaryOf run path)) disk =
          (((writeBundle T run config strategy).exec refuses disk).1.map (summaryOf run),
            ((writeBundle T run config strategy).exec refuses disk).2) := FsProgram.exec_map
    change ((∃ path, ((writeBundle T run config strategy).exec refuses disk).1 = .ok path) ↔
      ∃ summary, (FsProgram.exec refuses (writeBundle T run config strategy >>= fun path =>
        pure (summaryOf run path)) disk).1 = .ok summary) ∧
      ((writeBundle T run config strategy).exec refuses disk).2 =
        (FsProgram.exec refuses (writeBundle T run config strategy >>= fun path =>
          pure (summaryOf run path)) disk).2
    rw [hmap]
    refine ⟨?_, rfl⟩
    cases ((writeBundle T run config strategy).exec refuses disk).1 with
    | error error => exact ⟨fun ⟨_, h⟩ => (nomatch h), fun ⟨_, h⟩ => (nomatch h)⟩
    | ok path => exact ⟨fun _ => ⟨_, rfl⟩, fun _ => ⟨_, rfl⟩⟩

/-- The two paths agree on every disk, and neither makes a run on bytes that are not the recorded
ones, exactly where the recorded identity is that of the bytes. -/
theorem identity_verified (hsource : config.dataSource = .Parquet path sha256) :
    ((∀ (refuses : FsOp M T → Option String) (disk : Disk M T),
        ((∃ dest, ((runAndWrite S B M T files strategy exit config).exec refuses disk).1 =
            .ok dest) ↔
          ∃ summary, ((runAlone S B M T files strategy exit config materialisation).exec refuses
            disk).1 = .ok summary) ∧
        ((runAndWrite S B M T files strategy exit config).exec refuses disk).2 =
          ((runAlone S B M T files strategy exit config materialisation).exec refuses disk).2) ∧
      (sha256 ≠ "" → ∀ bytes, files path = .Regular bytes → toHex (Sha256.digest bytes) ≠ sha256 →
        (∃ error, runBacktestFeed files config = .error error ∧
          (runAndWrite S B M T files strategy exit config).run = .ret (.error error)) ∧
        ∃ error, batchFeed files materialisation config = .error error ∧
          (runAlone S B M T files strategy exit config materialisation).run =
            .ret (.error error))) ↔
      config.RecordsIdentity files path sha256 := by
  constructor
  · rintro ⟨-, hchecked⟩ hvalid hne bytes hbytes ⟨tape, hopen⟩
    by_contra hdiffers
    obtain ⟨⟨error, hfeed, -⟩, -⟩ := hchecked hne bytes hbytes hdiffers
    rw [runBacktestFeed_eq hsource, hvalid, hopen] at hfeed
    cases hfeed
  · intro hrecorded
    rcases feeds_agree hsource hrecorded with
      ⟨feed, hsingle, hbatch⟩ | ⟨⟨error, hsingle⟩, error', hbatch⟩
    · refine ⟨paths_agree hsingle hbatch, fun hne bytes hbytes hdiffers => ?_⟩
      obtain ⟨hvalid, hopen⟩ := runBacktestFeed_eq_ok hsource hsingle
      exact absurd (hrecorded hvalid hne bytes hbytes hopen) hdiffers
    · have hfirst : (runAndWrite S B M T files strategy exit config).run = .ret (.error error) :=
        runAndWrite_error hsingle
      have hsecond : (runAlone S B M T files strategy exit config materialisation).run =
          .ret (.error error') := runAlone_error hbatch
      refine ⟨fun refuses disk => ?_, fun _ _ _ _ =>
        ⟨⟨error, hsingle, hfirst⟩, error', hbatch, hsecond⟩⟩
      unfold FsProgram.exec
      rw [hfirst, hsecond]
      exact ⟨⟨fun ⟨_, h⟩ => (nomatch h), fun ⟨_, h⟩ => (nomatch h)⟩, rfl⟩

end Paths

section Small

open SmallBatch SmallMarket

/-- `run_backtest` and `write_bundle` on the small batch's file, on an empty disk. -/
def smallSingle (sha256 : String) : Outcome BundlePath × Disk Unit Table :=
  (runAndWrite Script (ReferenceBook ObOrderId) Unit Table files SmallBatch.strategy ()
    (SmallBatch.config sha256)).exec (fun _ => none) fun _ => none

/-- The batch of that one run, on an empty disk. -/
def smallAlone (sha256 : String) : Outcome RunSummary × Disk Unit Table :=
  (runAlone Script (ReferenceBook ObOrderId) Unit Table files SmallBatch.strategy ()
    (SmallBatch.config sha256) none).exec (fun _ => none) fun _ => none

/-- The identity of the bytes is recorded. -/
theorem identity_verified_recorded :
    ((∃ dest, (smallSingle (toHex (Sha256.digest tapeBytes))).1 = .ok dest) ↔
      ∃ summary, (smallAlone (toHex (Sha256.digest tapeBytes))).1 = .ok summary) ∧
    (smallSingle (toHex (Sha256.digest tapeBytes))).2 =
      (smallAlone (toHex (Sha256.digest tapeBytes))).2 := by
  have hrecorded : (SmallBatch.config (toHex (Sha256.digest tapeBytes))).RecordsIdentity files
      "spx.parquet" (toHex (Sha256.digest tapeBytes)) := by
    intro _ _ bytes hbytes _
    rw [FileState.Regular.inj hbytes]
  exact ((identity_verified rfl).2 hrecorded).1 (fun _ => none) fun _ => none

/-- An identity is recorded that is not that of the bytes: the single run publishes its bundle,
and the batch refuses the file. -/
theorem identity_unverified : files "spx.parquet" = .Regular tapeBytes ∧
    toHex (Sha256.digest tapeBytes) ≠ "00" ∧ (∃ dest, (smallSingle "00").1 = .ok dest) ∧
    ∃ error, (smallAlone "00").1 = .error error := by
  have hsingle : (smallSingle "00").1.isOk = true := by decide +kernel
  have hbatch : (smallAlone "00").1.isOk = false := by decide +kernel
  refine ⟨rfl, by decide +kernel, ?_, ?_⟩
  · cases hresult : (smallSingle "00").1 with
    | ok dest => exact ⟨dest, rfl⟩
    | error error =>
      rw [hresult] at hsingle
      cases hsingle
  · cases hresult : (smallAlone "00").1 with
    | ok summary =>
      rw [hresult] at hbatch
      cases hbatch
    | error error => exact ⟨error, rfl⟩

end Small

end IronCondor
