import IronCondor.Batch.RunIds
import IronCondor.Bundle.Footprint
import IronCondor.Lib.ReferenceBook

/-! # Sharing in a batch

The runs of a batch share one parsed tape and one output directory. Neither shows: every run is
served the tape its own verified open would give it, and touches no path of another run. -/
namespace IronCondor

open Checked OrderBook

section Cache

variable [Sha256] [ParquetReader] {files : Files} {path sha256 : String} {limits : ResourceLimits}
  {planned : List PlannedRun}

/-- What the cache records of an open. -/
def cached : Outcome ParquetTape → Except String ParquetTape
  | .ok tape => .ok tape
  | .error error => .error error.display

theorem materialiseNext_contains {shared : SharedTapes} {run : PlannedRun}
    (hrun : run.config.dataSource = .Parquet path sha256) (h : shared.contains path = true) :
    materialiseNext files shared run = shared := by
  simp only [materialiseNext, hrun, h, if_true]

/-- One path is opened once: its cached outcome is that of a verified open. -/
theorem materialiseSharedTapes_get (hruns : ∀ run ∈ planned,
    run.config.dataSource = .Parquet path sha256 ∧ run.config.limits = limits)
    (hne : planned ≠ []) : (materialiseSharedTapes files planned)[path]? =
      some (cached (ParquetFeed.openVerified files path sha256 limits)) := by
  have hrest : ∀ (runs : List PlannedRun) (shared : SharedTapes),
      (∀ run ∈ runs, run.config.dataSource = .Parquet path sha256) →
      shared.contains path = true → runs.foldl (materialiseNext files) shared = shared := by
    intro runs
    induction runs with
    | nil => exact fun shared _ _ => rfl
    | cons run runs ih =>
      intro shared hsame hcontains
      obtain ⟨hrun, hsame⟩ := List.forall_mem_cons.1 hsame
      rw [List.foldl_cons, materialiseNext_contains hrun hcontains]
      exact ih shared hsame hcontains
  cases planned with
  | nil => exact absurd rfl hne
  | cons run runs =>
    obtain ⟨⟨hrun, hlimits⟩, hsame⟩ := List.forall_mem_cons.1 hruns
    have hfirst : materialiseNext files ∅ run =
        (∅ : SharedTapes).insert path (cached (ParquetFeed.openVerified files path sha256 limits)) := by
      simp only [materialiseNext, hrun, hlimits]
      rfl
    rw [materialiseSharedTapes, List.foldl_cons, hfirst,
      hrest runs _ (fun run hin => (hsame run hin).1) (by simp)]
    simp

/-- The tape of a verified open is identified by the bytes of its file. -/
theorem openVerified_identity {tape : ParquetTape}
    (h : ParquetFeed.openVerified files path sha256 limits = .ok tape) :
    ∃ bytes, files path = .Regular bytes ∧
      tape.feed.tapeMeta.dataIdentity = toHex (Sha256.digest bytes) := by
  obtain ⟨-, hidentity, bytes, hbytes, hsha⟩ :=
    ParquetFeed.open_eq_ok (ParquetFeed.openVerified_eq_ok.1 h).1
  exact ⟨bytes, hbytes, hidentity.trans hsha⟩

variable [SimulatorClient] {materialisation : Option SimulatorMaterialisation}
  {shared : SharedTapes} {config : BacktestConfig}

/-- Without a cache a run opens its file, and verifies it. -/
theorem openFeed_empty (hsource : config.dataSource = .Parquet path sha256) :
    openFeed files materialisation ∅ config =
      match ParquetFeed.openVerified files path sha256 config.limits with
      | .ok tape => .ok tape.feed
      | .error error => .error error := by
  have hmiss : (∅ : SharedTapes)[path]? = none := Std.TreeMap.getElem?_emptyc
  simp only [openFeed, hsource, hmiss]
  cases ParquetFeed.openVerified files path sha256 config.limits <;> rfl

/-- With the outcome of that open in the cache, a run is served the same tape, or its error. -/
theorem openFeed_cached (hsource : config.dataSource = .Parquet path sha256)
    (hcache : shared[path]? =
      some (cached (ParquetFeed.openVerified files path sha256 config.limits))) :
    openFeed files materialisation shared config =
      match ParquetFeed.openVerified files path sha256 config.limits with
      | .ok tape => .ok tape.feed
      | .error error => .error (.Data error.display) := by
  simp only [openFeed, hsource, hcache]
  cases hopen : ParquetFeed.openVerified files path sha256 config.limits with
  | error error => rfl
  | ok tape => exact if_pos (ParquetFeed.openVerified_eq_ok.1 hopen).2

end Cache

section Entries

/-- What a run that has been written is summarised to. -/
def summaryOf {M : Type} (run : PopulatedRun M) (path : BundlePath) : RunSummary where
  runId := path.fileName
  bundlePath := path.display
  tapeSha256 := run.dataIdentity
  terminalEquityCents := (run.equityCurve.getLast?.map EquityPoint.equityCents).getD .zero

variable (S B M T : Type) {R E : Type} [DecimalArith] [DecimalSums] [Strategy S R] [SeedableRng R]
  [StrategyFactory S E] [SummaryMetrics M] [Book B ObOrderId] [Sha256] [SerdeJson RunIdPreimage]
  [TableEncoders M T] [Build] (strategy : StrategySpec) (exit : E)

/-- The body of `run_one` on the feed that was opened. -/
def runFrom (config : BacktestConfig) (feed : Outcome Feed) : FsProgram M T RunSummary := do
  liftOutcome config.validate
  let run : PopulatedRun M ← liftOutcome (do
    let feed ← feed
    runSpecWithFeed S B config feed strategy exit)
  let bundlePath ← writeBundle T run config strategy
  return summaryOf run bundlePath

/-- The entry of a result. -/
def PlannedRun.entry (run : PlannedRun) (result : Outcome RunSummary) : BatchRunEntry where
  index := run.index
  engineSeed := run.config.seed
  dataSeed := dataSeedOf run.config
  outcome := .of result

variable {S B M T} {strategy exit} {config : BacktestConfig} {feed : Outcome Feed}
  {run : PlannedRun} {files : Files} {path sha256 : String}

/-- The paths of a run: the siblings of the identity it has over the bytes of its file. -/
def PlannedRun.paths (files : Files) (path : String) (strategy : StrategySpec) (run : PlannedRun) :
    Set BundlePath :=
  {p | ∃ bytes, files path = .Regular bytes ∧ runIdOf strategy.canonical
    (toHex (Sha256.digest bytes)) Build.codeVersion lockfileSha256 run.config = .ok p.runId}

theorem runFrom_keeps (hfeed : ∀ f, feed = .ok f → ∃ bytes, files path = .Regular bytes ∧
      f.tapeMeta.dataIdentity = toHex (Sha256.digest bytes)) :
    (runFrom S B M T strategy exit run.config feed).Keeps (run.paths files path strategy) := by
  refine FsProgram.keeps_lift_bind fun _ _ => FsProgram.keeps_lift_bind fun out hrun => ?_
  obtain ⟨f, hf, hrun⟩ := bind_ok_iff.1 hrun
  obtain ⟨bytes, hbytes, hidentity⟩ := hfeed f hf
  refine FsProgram.Keeps.bind (FsProgram.writeBundle_keeps fun id hid slot => ?_) fun _ =>
    FsProgram.keeps_pure _
  rw [runSpecWithFeed_dataIdentity hrun, hidentity] at hid
  exact ⟨bytes, hbytes, hid⟩

/-- A feed that does not open writes nothing. -/
theorem runFrom_error (error : BacktestError) :
    (runFrom S B M T strategy exit config (.error error)).run =
      .ret (.error (match config.validate with | .ok _ => error | .error first => first)) := by
  unfold runFrom
  cases config.validate <;> rfl

variable [ParquetReader] [SimulatorClient] {materialisation : Option SimulatorMaterialisation}
  {shared : SharedTapes}

theorem runOneEntry_eq : runOneEntry S B M T files strategy exit materialisation shared run =
    (runFrom S B M T strategy exit run.config
      (openFeed files materialisation shared run.config)).run.bind
        fun result => .ret (run.entry result) := rfl

/-- A run over a cached tape keeps to its own paths. -/
theorem runOneEntry_local {refuses : FsOp M T → Option String}
    (hsource : run.config.dataSource = .Parquet path sha256)
    (hcache : shared[path]? =
      some (cached (ParquetFeed.openVerified files path sha256 run.config.limits))) :
    (runOneEntry S B M T files strategy exit materialisation shared run).All
      (Prog.Local (FsOp.exec refuses) (run.paths files path strategy)) := by
  rw [runOneEntry_eq, openFeed_cached hsource hcache]
  refine Prog.All.bind ?_ fun result => trivial
  refine Prog.All.mono (runFrom_keeps fun f hf => ?_) fun o ho => FsOp.within_local ho
  split at hf
  · rename_i tape hopen
    cases hf
    exact openVerified_identity hopen
  · cases hf

variable (S B T) (strategy) (exit) (materialisation) in
/-- Served from the cache, a run is the program it is alone; or the file does not open, and its
entry carries the replayed error. -/
theorem runOneEntry_cached (hsource : run.config.dataSource = .Parquet path sha256)
    (hcache : shared[path]? =
      some (cached (ParquetFeed.openVerified files path sha256 run.config.limits))) :
    runOneEntry S B M T files strategy exit materialisation shared run =
        runOneEntry S B M T files strategy exit materialisation ∅ run ∨
      ∃ error, ParquetFeed.openVerified files path sha256 run.config.limits = .error error ∧
        (runOneEntry S B M T files strategy exit materialisation ∅ run =
          .ret (run.entry (.error error))) ∧
        runOneEntry S B M T files strategy exit materialisation shared run =
          .ret (run.entry (.error (.Data error.display))) := by
  rw [runOneEntry_eq, runOneEntry_eq, openFeed_empty hsource, openFeed_cached hsource hcache]
  cases ParquetFeed.openVerified files path sha256 run.config.limits with
  | ok tape => exact .inl rfl
  | error error =>
    rw [runFrom_error, runFrom_error]
    cases run.config.validate with
    | error first => exact .inl rfl
    | ok _ => exact .inr ⟨error, rfl, rfl, rfl⟩

end Entries

section Chunks

variable {α : Type}

/-- The first pieces of a list are its first elements. -/
theorem flatten_pieces (size : Nat) (as : List α) (count : Nat) :
    ((List.range count).map fun i => (as.drop (i * size)).take size).flatten =
      as.take (count * size) := by
  induction count with
  | zero => simp
  | succ count ih =>
    rw [List.range_succ, List.map_append, List.flatten_append, ih, Nat.succ_mul, List.take_add]
    simp

theorem le_divCeil_mul (n : Nat) {d : Nat} (hd : 0 < d) : n ≤ divCeil n d * d := by
  have hdiv := Nat.div_add_mod (n + d - 1) d
  have hmod := Nat.mod_lt (n + d - 1) hd
  rw [divCeil, Nat.mul_comm]
  omega

/-- Chunks drop and repeat nothing. -/
theorem chunks_flatten {size : Nat} (hsize : 0 < size) (as : List α) :
    (chunks size as).flatten = as := by
  rw [chunks, flatten_pieces, List.take_of_length_le (le_divCeil_mul as.length hsize)]

end Chunks

section Plan

/-- Entries that are collected in the order of their indices are joined as they are. -/
theorem joinEntries_eq {collected : List (List BatchRunEntry)}
    (h : (collected.flatten.map fun entry => entry.index.value).Pairwise (· ≤ ·)) :
    joinEntries collected = collected.flatten := by
  refine List.mergeSort_of_pairwise ((List.pairwise_map.1 h).imp fun hle => ?_)
  exact decide_eq_true hle

/-- The plan of a batch numbers its configurations from zero on. -/
theorem planRuns_eq_ok {configs : List BacktestConfig} {planned : List PlannedRun}
    (h : planRuns configs = .ok planned) :
    planned.map PlannedRun.config = configs ∧
      planned.map (fun run => run.index.value) = (List.range configs.length).map Nat.cast := by
  suffices hfrom : ∀ (configs : List BacktestConfig) (start : Nat) (planned : List PlannedRun),
      ((configs.zipIdx start).mapM fun entry => do
        let index ← checked u32 entry.2
        return (⟨index, entry.1⟩ : PlannedRun)) = .ok planned →
      planned.map PlannedRun.config = configs ∧ planned.map (fun run => run.index.value) =
        (List.range' start configs.length).map Nat.cast by
    rw [List.range_eq_range']
    exact hfrom configs 0 planned h
  intro configs
  induction configs with
  | nil =>
    intro start planned h
    cases h
    exact ⟨rfl, rfl⟩
  | cons config configs ih =>
    intro start planned h
    simp only [List.zipIdx_cons, List.mapM_cons, bind_ok_iff, narrow_eq_ok, pure_ok_iff] at h
    obtain ⟨run, ⟨index, hindex, rfl⟩, rest, hrest, rfl⟩ := h
    obtain ⟨hconfigs, hindices⟩ := ih (start + 1) rest hrest
    simp only [List.map_cons, hconfigs, hindices, List.length_cons, List.range'_succ, hindex]
    exact ⟨trivial, trivial⟩

end Plan

/-- The entry is the one the run has alone, but for the prefix of a replayed error. -/
def BatchRunEntry.Replays (opened : Outcome ParquetTape) (entry alone : BatchRunEntry) : Prop :=
  entry = alone ∨ ∃ error, opened = .error error ∧ alone.outcome = .Error error.display ∧
    entry = { alone with
      outcome := .Error ("malformed data: " ++ error.display) }

section Batch

variable {S B M T : Type} {R E : Type} [Sha256] [SerdeJson RunIdPreimage] [Build]
  {strategy : StrategySpec} {exit : E} {files : Files} {path sha256 : String}
  {limits : ResourceLimits} {materialisation : Option SimulatorMaterialisation}
  {refuses : FsOp M T → Option String} {available : Nat} {disk : Disk M T} {shared : SharedTapes}
  {planned : List PlannedRun}

/-- Runs with distinct identities have disjoint paths. -/
theorem paths_disjoint (hdistinct : ∀ bytes, files path = .Regular bytes →
      planned.Pairwise fun a b => ∀ id, runIdOf strategy.canonical (toHex (Sha256.digest bytes))
        Build.codeVersion lockfileSha256 a.config = .ok id →
        runIdOf strategy.canonical (toHex (Sha256.digest bytes)) Build.codeVersion lockfileSha256
          b.config ≠ .ok id) :
    planned.Pairwise fun a b => Disjoint (a.paths files path strategy)
      (b.paths files path strategy) := by
  by_cases hregular : ∃ bytes, files path = .Regular bytes
  · obtain ⟨bytes, hbytes⟩ := hregular
    refine (hdistinct bytes hbytes).imp fun {a b} hne => Set.disjoint_left.2 ?_
    rintro p ⟨first, hfirst, ha⟩ ⟨second, hsecond, hb⟩
    cases hbytes.symm.trans hfirst
    cases hbytes.symm.trans hsecond
    exact hne p.runId ha hb
  · refine List.pairwise_of_forall fun a b => Set.disjoint_left.2 ?_
    rintro p ⟨bytes, hbytes, -⟩
    exact absurd ⟨bytes, hbytes⟩ hregular

variable [DecimalArith] [DecimalSums] [Strategy S R] [SeedableRng R] [StrategyFactory S E]
  [SummaryMetrics M] [Book B ObOrderId] [TableEncoders M T] [ParquetReader] [SimulatorClient]

theorem entry_index {run : PlannedRun} :
    ((runOneEntry S B M T files strategy exit materialisation shared run).run
      (FsOp.exec refuses) disk).1.index = run.index := by
  rw [runOneEntry_eq, Prog.run_bind]
  rfl

theorem map_entry_index : ((planned.map fun run =>
      ((runOneEntry S B M T files strategy exit materialisation shared run).run
        (FsOp.exec refuses) disk).1).map fun entry => entry.index.value) =
    planned.map fun run => run.index.value := by
  rw [List.map_map]
  refine List.map_congr_left fun run _ => ?_
  dsimp only [Function.comp_apply]
  rw [entry_index]

/-- However the workers interleave, a batch returns the entries its runs have alone, in order. -/
theorem fanOut_eq_some (hlocal : ∀ run ∈ planned,
      (runOneEntry S B M T files strategy exit materialisation shared run).All
        (Prog.Local (FsOp.exec refuses) (run.paths files path strategy)))
    (hdisjoint : planned.Pairwise fun a b => Disjoint (a.paths files path strategy)
      (b.paths files path strategy))
    (hindex : (planned.map fun run => run.index.value).Pairwise (· ≤ ·))
    {schedule : List Nat} {entries : List BatchRunEntry}
    (h : fanOut S B M T files strategy exit materialisation shared refuses available planned
      schedule disk = some entries) :
    entries = planned.map fun run =>
      ((runOneEntry S B M T files strategy exit materialisation shared run).run
        (FsOp.exec refuses) disk).1 := by
  unfold fanOut at h
  split at h
  · rename_i hempty
    rw [List.isEmpty_iff.1 hempty]
    exact (Option.some.inj h).symm
  rename_i hne
  obtain ⟨values, hvalues, rfl⟩ := Option.map_eq_some_iff.1 h
  have hpos : 0 < planned.length := by
    rw [List.length_pos_iff]
    exact fun hnil => hne (List.isEmpty_iff.2 hnil)
  have hworkers : 0 < workerCount available planned.length := Nat.le_max_right _ _
  have hsize : 0 < divCeil planned.length (workerCount available planned.length) := by
    have hle := le_divCeil_mul planned.length hworkers
    exact Nat.pos_of_ne_zero fun hzero => by
      rw [hzero, Nat.zero_mul] at hle
      omega
  have hflatten := chunks_flatten hsize planned
  have hentries := Prog.Pool.play_pieces (hflatten.symm ▸ hlocal) (hflatten.symm ▸ hdisjoint) hvalues
  rw [hentries, joinEntries_eq]
  · rw [← List.map_flatten, hflatten]
  · rw [← List.map_flatten, hflatten, map_entry_index]
    exact hindex

/-- From wherever a batch has got to, it can go on to its end. -/
theorem fanOut_can_end (schedule : List Nat) : ∃ more entries,
    fanOut S B M T files strategy exit materialisation shared refuses available planned
      (schedule ++ more) disk = some entries := by
  unfold fanOut
  split
  · exact ⟨[], [], rfl⟩
  · dsimp only
    obtain ⟨more, values, hvalues⟩ : ∃ more values, (Prog.Pool.play (FsOp.exec refuses)
        (Prog.Pool.play (FsOp.exec refuses) ⟨workers S B M T files strategy exit materialisation
          shared available planned, disk⟩ schedule) more).values? = some values :=
      Prog.Pool.can_end _
    refine ⟨more, joinEntries values, ?_⟩
    rw [Prog.Pool.play, List.foldl_append]
    exact congrArg (Option.map joinEntries) hvalues

variable (S B T) (strategy) (exit) (materialisation) (refuses) (available) (disk) in
/-- Cache and fan-out do not show: a batch over a file, its runs of distinct identities, can
always be run to its end, and however many workers there are and however they interleave, it
returns one entry a run in the order of the runs, each the entry of the run alone. -/
theorem batch_as_alone [SessionWalk] {params : ScenarioParams} {base : BacktestConfig}
    {configs : List BacktestConfig} (hparquet : base.dataSource = .Parquet path sha256)
    (hexpand : expand params base = .ok configs) (hplan : planRuns configs = .ok planned)
    (hdistinct : ∀ bytes, files path = .Regular bytes → configs.Pairwise fun a b => ∀ id,
      runIdOf strategy.canonical (toHex (Sha256.digest bytes)) Build.codeVersion lockfileSha256
        a = .ok id →
      runIdOf strategy.canonical (toHex (Sha256.digest bytes)) Build.codeVersion lockfileSha256
        b ≠ .ok id) :
    (∀ schedule, ∃ more entries, fanOut S B M T files strategy exit materialisation
      (materialiseSharedTapes files planned) refuses available planned (schedule ++ more) disk =
        some entries) ∧
    ∀ schedule entries, fanOut S B M T files strategy exit materialisation
        (materialiseSharedTapes files planned) refuses available planned schedule disk =
          some entries →
      (entries.map fun entry => entry.index.value) = (List.range configs.length).map Nat.cast ∧
      List.Forall₂ (fun entry run => BatchRunEntry.Replays
        (ParquetFeed.openVerified files path sha256 base.limits) entry
        ((runOneEntry S B M T files strategy exit materialisation ∅ run).run
          (FsOp.exec refuses) disk).1) entries planned := by
  obtain ⟨hconfigs, hindices⟩ := planRuns_eq_ok hplan
  have hfile : ∀ spec, base.dataSource ≠ .Simulator spec := by
    rw [hparquet]
    exact fun spec hspec => nomatch hspec
  have hruns : ∀ run ∈ planned,
      run.config.dataSource = .Parquet path sha256 ∧ run.config.limits = base.limits := by
    intro run hin
    have hconfig : run.config ∈ configs := hconfigs ▸ List.mem_map_of_mem hin
    rw [config_of_mem hfile hexpand hconfig]
    exact ⟨hparquet, rfl⟩
  have hcache : ∀ run ∈ planned, (materialiseSharedTapes files planned)[path]? =
      some (cached (ParquetFeed.openVerified files path sha256 run.config.limits)) := by
    intro run hin
    rw [(hruns run hin).2]
    exact materialiseSharedTapes_get hruns (List.ne_nil_of_mem hin)
  have hdisjoint : planned.Pairwise fun a b => Disjoint (a.paths files path strategy)
      (b.paths files path strategy) :=
    paths_disjoint fun bytes hbytes => List.pairwise_map.1 (hconfigs.symm ▸ hdistinct bytes hbytes)
  have hsorted : (planned.map fun run => run.index.value).Pairwise (· ≤ ·) := by
    rw [hindices, List.pairwise_map]
    exact (List.pairwise_lt_range).imp fun hlt => Int.ofNat_le.2 hlt.le
  refine ⟨fanOut_can_end, fun schedule entries h => ?_⟩
  obtain rfl := fanOut_eq_some (fun run hin => runOneEntry_local (hruns run hin).1 (hcache run hin))
    hdisjoint hsorted h
  refine ⟨?_, List.forall₂_map_left_iff.2 (List.forall₂_same.2 fun run hin => ?_)⟩
  · rw [map_entry_index, hindices]
  · rcases runOneEntry_cached S B T strategy exit materialisation (hruns run hin).1
      (hcache run hin) with hsame | ⟨error, hopen, halone, hshared⟩
    · exact .inl (by rw [hsame])
    · rw [(hruns run hin).2] at hopen
      refine .inr ⟨error, hopen, ?_, ?_⟩
      · rw [halone]
        rfl
      · rw [halone, hshared]
        rfl

end Batch

open SmallBatch SmallMarket in
/-- Two runs on two workers. -/
theorem batch_as_alone_pinned : ∃ schedule entries,
    fanOut Script (ReferenceBook ObOrderId) Unit Table files SmallBatch.strategy () none
      (materialiseSharedTapes files plan) (fun _ => none) 2 plan schedule (fun _ => none) =
        some entries ∧
    (entries.map fun entry => entry.index.value) = [0, 1] ∧
    List.Forall₂ (fun entry run => BatchRunEntry.Replays
      (ParquetFeed.openVerified files "spx.parquet" "" (SmallBatch.config "").limits) entry
      ((runOneEntry Script (ReferenceBook ObOrderId) Unit Table files SmallBatch.strategy () none ∅
        run).run (FsOp.exec fun _ => none) fun _ => none).1) entries plan := by
  have hdistinct : ∀ bytes, files "spx.parquet" = .Regular bytes →
      [seeded one, seeded two].Pairwise fun a b => ∀ id,
        runIdOf SmallBatch.strategy.canonical (toHex (Sha256.digest bytes)) Build.codeVersion
          lockfileSha256 a = .ok id →
        runIdOf SmallBatch.strategy.canonical (toHex (Sha256.digest bytes)) Build.codeVersion
          lockfileSha256 b ≠ .ok id := by
    intro bytes hbytes
    obtain rfl : tapeBytes = bytes := FileState.Regular.inj hbytes
    rw [List.pairwise_pair, strategy_canonical]
    intro id hone
    exact smallRunId_ne hone
  obtain ⟨hends, hentries⟩ := batch_as_alone Script (ReferenceBook ObOrderId) Table
    SmallBatch.strategy () none (fun _ => none) 2 (fun _ => none) (show (SmallBatch.config "").dataSource =
      .Parquet "spx.parquet" "" from rfl) expand_pinned (show planRuns _ = .ok plan from rfl) hdistinct
  obtain ⟨schedule, entries, hfan⟩ := hends []
  obtain ⟨hindex, hall⟩ := hentries schedule entries hfan
  exact ⟨schedule, entries, hfan, hindex, hall⟩

end IronCondor
