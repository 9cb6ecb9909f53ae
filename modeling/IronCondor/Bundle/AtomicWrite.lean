import IronCondor.Batch.SmallBatch
import IronCondor.Bundle.AtomicPublish
import IronCondor.Lib.ReferenceBook

/-! # Atomic writes

A whole call of the writer under one fault, and the call that follows it. -/
namespace IronCondor

open Checked OrderBook Prog
open FsProgram (attempt)

/-- The path of a run identity in the output directory of a configuration. -/
def BacktestConfig.path (config : BacktestConfig) (slot : BundleSlot) (id : RunId) : BundlePath :=
  ⟨config.outputDir, slot, id⟩

theorem siblings (config : BacktestConfig) (id : RunId) :
    Siblings (config.path .dest id) (config.path .temp id) (config.path .backup id) := by
  constructor <;> simp [BacktestConfig.path]

/-- The operations of a call before it creates its directory. -/
def preparation {M T : Type} (disk : Disk M T) (temp : BundlePath) : Nat :=
  if (disk temp).isSome then 4 else 3

section Call

variable {M T α : Type} [Sha256] [SerdeJson RunIdPreimage] [TableEncoders M T] [Build]
  {run : PopulatedRun M} {config : BacktestConfig} {strategy : StrategySpec} {id : RunId}
  {disk : Disk M T} {fault : Option (FsFault M T)}

/-- What a call does once its preparation is over. -/
def publishing (T : Type) [TableEncoders M T] (run : PopulatedRun M) (config : BacktestConfig)
    (strategy : StrategySpec) (id : RunId) (destExists : Bool) : FsProgram M T BundlePath := do
  publishBundle run config strategy.canonical id destExists (config.path .dest id)
    (config.path .temp id) (config.path .backup id)
  return config.path .dest id

omit [Sha256] [SerdeJson RunIdPreimage] [TableEncoders M T] [Build] in
/-- An operation that the fault misses and that succeeds. -/
theorem attempt_fs_miss {o : FsOp M T} {context : String} {disk' : Disk M T} {answer : Bool}
    {served : List (FsOp M T × FsAnswer)} (fault : Option (FsFault M T))
    (heffect : o.effect disk = (.ok answer, disk')) (hmiss : ∀ f, fault = some f → 1 ≤ f.position) :
    attempt (fs o context) (FsFault.machine fault disk served) =
      (some (.ok answer), FsFault.machine (FsFault.later 1 fault) disk'
        (served ++ [(o, .ok answer)])) := by
  rw [FsProgram.attempt_fs, serve_miss hmiss, heffect]

/-- A preparation that is not struck clears the way for the publication. -/
theorem writeBundle_prepared (disk : Disk M T) (fault : Option (FsFault M T))
    (hid : RunId.derive config.seed config strategy.canonical run.dataIdentity Build.codeVersion
      lockfileSha256 = .ok id)
    (hproceeds : (disk (config.path .dest id)).isSome → config.overwrite)
    (hmiss : ∀ f, fault = some f → preparation disk (config.path .temp id) ≤ f.position) :
    ∃ served, attempt (writeBundle T run config strategy) (FsFault.machine fault disk []) =
      attempt (publishing T run config strategy id (disk (config.path .dest id)).isSome)
        (FsFault.machine (FsFault.later (preparation disk (config.path .temp id)) fault)
          (Function.update disk (config.path .temp id) none) served) := by
  have hgo : ((disk (config.path .dest id)).isSome && !config.overwrite) = false := by
    cases hdest : (disk (config.path .dest id)).isSome
    · rfl
    · simp [hproceeds hdest]
  have hpath : ∀ slot, (⟨config.outputDir, slot, id⟩ : BundlePath) = config.path slot id :=
    fun _ => rfl
  have hstat : ∀ path, (FsOp.tryExists path).effect disk = (.ok (disk path).isSome, disk) :=
    fun _ => rfl
  have hmkdir : ∀ dir, (FsOp.createDirAll dir).effect disk = (.ok true, disk) := fun _ => rfl
  have hlater : ∀ {k n : Nat}, k + n ≤ preparation disk (config.path .temp id) →
      ∀ f, FsFault.later k fault = some f → n ≤ f.position := fun h =>
    later_misses fun f hf => h.trans (hmiss f hf)
  have hthree : 3 ≤ preparation disk (config.path .temp id) := by
    unfold preparation
    split <;> omega
  unfold writeBundle
  rw [FsProgram.attempt_bind, hid, FsProgram.attempt_lift]
  simp only [hpath]
  rw [FsProgram.attempt_bind, attempt_fs_miss _ (hstat _) fun f hf =>
    (by omega : 1 ≤ _).trans (hmiss f hf)]
  simp only [hgo, Bool.false_eq_true, if_false]
  rw [FsProgram.attempt_bind, attempt_fs_miss _ (hmkdir _) (hlater (by omega))]
  simp only [later_later]
  rw [FsProgram.attempt_bind, attempt_fs_miss _ (hstat _) (hlater (by omega))]
  simp only [later_later]
  rcases htemp : disk (config.path .temp id) with _ | leftover
  · have hsame : Function.update disk (config.path .temp id) none = disk := by
      rw [← htemp, Function.update_eq_self]
    rw [hsame, preparation, htemp]
    exact ⟨_, rfl⟩
  · have heffect : (FsOp.removeDirAll (config.path .temp id)).effect disk =
        (.ok true, Function.update disk (config.path .temp id) none) := by
      simp [FsOp.effect, htemp]
    have hfour : preparation disk (config.path .temp id) = 4 := by rw [preparation, htemp]; rfl
    simp only [Option.isSome_some, if_true]
    rw [FsProgram.attempt_bind, attempt_fs_miss _ heffect (hlater (by omega))]
    simp only [later_later, hfour]
    exact ⟨_, rfl⟩

section Retry

omit [Sha256] [SerdeJson RunIdPreimage] [TableEncoders M T] [Build] in
/-- A swap that is not struck puts the new bundle in its place. -/
theorem swapBundle_done {dest temp backup : BundlePath} (h : Siblings dest temp backup)
    {old new : List (BundleFile M T)} (served : List (FsOp M T × FsAnswer))
    (hdest : disk dest = some old) (htemp : disk temp = some new) (hbackup : disk backup = none) :
    ∃ m, attempt (swapBundle dest temp backup) (FsFault.machine none disk served) =
      (some (.ok ()), m) ∧ m.store dest = some new := by
  obtain ⟨hdt, hdb, htb⟩ := h
  simp [swapBundle, FsProgram.attempt_bind, FsProgram.attempt_onError, FsProgram.attempt_fs,
    FsProgram.attempt_fsBestEffort, Machine.serve, FsFault.machine, FsOp.effect, hdest, htemp,
    hbackup, hdt, hdb, htb, hdt.symm, hdb.symm, htb.symm, Function.update_of_ne]

omit [Sha256] [SerdeJson RunIdPreimage] [TableEncoders M T] [Build] in
theorem afterBuild_done {dest temp backup : BundlePath} (h : Siblings dest temp backup)
    {new : List (BundleFile M T)} (served : List (FsOp M T × FsAnswer)) (rowCounts : RowCounts)
    (htemp : disk temp = some new) :
    ∃ m, attempt (afterBuild dest temp backup (disk dest).isSome (.ok rowCounts))
      (FsFault.machine none disk served) = (some (.ok ()), m) ∧ m.store dest = some new := by
  rcases hdest : disk dest with _ | old
  · simp [-bind_pure_comp, afterBuild, FsProgram.attempt_bind, FsProgram.attempt_onError,
      FsProgram.attempt_fs, Machine.serve, FsFault.machine, FsOp.effect, hdest, htemp, h.dest_temp,
      Function.update_of_ne]
  rcases hbackup : disk backup with _ | stale
  · have hswap := swapBundle_done h (served ++ [(.tryExists backup, .ok false)]) hdest htemp hbackup
    simpa [afterBuild, replaceBundle_fresh hbackup] using hswap
  · have hswap := swapBundle_done h
      (served ++ [(.tryExists backup, .ok true), (.removeDirAll backup, .ok true)])
      ((Function.update_of_ne h.dest_backup _ _).trans hdest)
      ((Function.update_of_ne h.temp_backup _ _).trans htemp) (Function.update_self _ _ _)
    simpa [afterBuild, replaceBundle_stale hbackup] using hswap

/-- A call that goes ahead and is not struck publishes the files of its build. -/
theorem writeBundle_stores
    (hid : RunId.derive config.seed config strategy.canonical run.dataIdentity Build.codeVersion
      lockfileSha256 = .ok id)
    (hproceeds : (disk (config.path .dest id)).isSome → config.overwrite) {rowCounts : RowCounts}
    (hfiles : (bundleFiles (T := T) run config strategy.canonical id).2 = .ok rowCounts) :
    ∃ m, attempt (writeBundle T run config strategy) (FsFault.machine none disk []) =
      (some (.ok (config.path .dest id)), m) ∧ m.store (config.path .dest id) =
        some ((bundleFiles (T := T) run config strategy.canonical id).1.map Prod.fst) := by
  have hsib := siblings config id
  obtain ⟨served, heval⟩ := writeBundle_prepared disk none hid hproceeds nofun
  have hdest : ∀ files, Function.update disk (config.path .temp id) files (config.path .dest id) =
      disk (config.path .dest id) := fun files => Function.update_of_ne hsib.dest_temp _ _
  have heffect : (FsOp.createDir (config.path .temp id)).effect
      (Function.update disk (config.path .temp id) none) =
        (.ok true, Function.update disk (config.path .temp id) (some [])) := by
    simp [FsOp.effect]
  obtain ⟨served', -, hbuild⟩ := build_miss
    (bundleFiles (T := T) run config strategy.canonical id).1
    (served ++ [(.createDir (config.path .temp id), .ok true)]) none
    (Function.update_self (config.path .temp id) (some []) disk) nofun
  obtain ⟨m, hafter, hstore⟩ := afterBuild_done hsib served' rowCounts
    (Function.update_self (config.path .temp id) (some ((bundleFiles (T := T) run config
      strategy.canonical id).1.map Prod.fst)) disk)
  rw [hdest] at hafter
  refine ⟨m, ?_, hstore⟩
  rw [heval, publishing, FsProgram.attempt_bind, publishBundle_attempt, FsProgram.attempt_bind,
    FsFault.later_none, attempt_fs_miss none heffect nofun]
  simp only [FsFault.later_none]
  rw [FsProgram.attempt_bind, hbuild, Function.update_idem, List.nil_append, FsFault.later_none]
  simp only [hfiles]
  rw [hafter]
  rfl

end Retry

end Call

section Small

open SmallBatch SmallMarket

/-- The small batch's run, which may overwrite. -/
def overwriting : BacktestConfig :=
  { SmallBatch.config "" with
    overwrite := true }

/-- A disk that holds one published bundle. -/
def published (id : RunId) (files : List (BundleFile Unit Table)) : Disk Unit Table :=
  Function.update (fun _ => none) (overwriting.path .dest id) (some files)

end Small

end IronCondor
