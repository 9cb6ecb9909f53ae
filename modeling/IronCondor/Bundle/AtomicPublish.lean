import IronCondor.Bundle.Attempt

/-! # Atomic publication

Whatever operation of a call is struck, a complete bundle that was there stays at the destination
or at the backup, and a call that fails leaves no directory of its own: with the exceptions that
`Struck` names. A later call that may overwrite succeeds from whatever a call left. -/
namespace IronCondor

open Checked Prog
open FsProgram (attempt)

variable {M T α : Type}

/-- A directory that holds every file of a bundle. -/
def Complete (files : Option (List (BundleFile M T))) : Prop :=
  ∃ fs, files = some fs ∧ (∃ table, .fills table ∈ fs) ∧ (∃ table, .equityCurve table ∈ fs) ∧
    (∃ table, .positions table ∈ fs) ∧ (∃ table, .greeksAttribution table ∈ fs) ∧
      ∃ record, .manifest record ∈ fs

@[simp] theorem not_complete_none : ¬ Complete (none : Option (List (BundleFile M T))) := by
  rintro ⟨_, ⟨⟩, -⟩

@[simp] theorem not_complete_nil : ¬ Complete (some ([] : List (BundleFile M T))) := by
  rintro ⟨_, ⟨⟩, ⟨table, h⟩, -⟩
  cases h

/-- The three paths of a run identity. -/
structure Siblings (dest temp backup : BundlePath) : Prop where
  dest_temp : dest ≠ temp
  dest_backup : dest ≠ backup
  temp_backup : temp ≠ backup

/-- The machine of a call at the start of its operations. -/
def FsFault.machine (fault : Option (FsFault M T)) (disk : Disk M T)
    (served : List (FsOp M T × FsAnswer)) : FsMachine M T :=
  ⟨disk, fault.map FsFault.fault, served⟩

section Replace

variable {dest temp backup : BundlePath} {disk before : Disk M T}
  {old new : List (BundleFile M T)} {served : List (FsOp M T × FsAnswer)}

/-- Without a stale backup an overwrite is the stat and the swap. -/
theorem replaceBundle_fresh (hbackup : disk backup = none) (fault : Option (FsFault M T)) :
    attempt (replaceBundle dest temp backup) (FsFault.machine fault disk served) =
      match fault with
      | some ⟨0, refusal, _⟩ =>
        (refusal.map fun msg => .error (bundleErr "stat backup directory" msg),
          ⟨disk, none, served⟩)
      | some ⟨n + 1, refusal, keeps⟩ => attempt (swapBundle dest temp backup)
          (FsFault.machine (some ⟨n, refusal, keeps⟩) disk (served ++ [(.tryExists backup, .ok false)]))
      | none => attempt (swapBundle dest temp backup)
          (FsFault.machine none disk (served ++ [(.tryExists backup, .ok false)])) := by
  rcases fault with _ | ⟨_ | n, _ | msg, keeps⟩ <;>
    simp [replaceBundle, FsProgram.attempt_bind, FsProgram.attempt_fs, Machine.serve,
      FsFault.machine, FsFault.fault, FsOp.effect, FsOp.interrupted, hbackup]

/-- A stale backup is removed before the swap. -/
theorem replaceBundle_stale {stale : List (BundleFile M T)} (hbackup : disk backup = some stale)
    (fault : Option (FsFault M T)) :
    attempt (replaceBundle dest temp backup) (FsFault.machine fault disk served) =
      match fault with
      | some ⟨0, refusal, _⟩ =>
        (refusal.map fun msg => .error (bundleErr "stat backup directory" msg),
          ⟨disk, none, served⟩)
      | some ⟨1, refusal, keeps⟩ =>
        (refusal.map fun msg => .error (bundleErr "remove stale backup directory" msg),
          ⟨Function.update disk backup (some (stale.filter keeps)), none,
            served ++ [(.tryExists backup, .ok true)]⟩)
      | some ⟨n + 2, refusal, keeps⟩ => attempt (swapBundle dest temp backup)
          (FsFault.machine (some ⟨n, refusal, keeps⟩) (Function.update disk backup none)
            (served ++ [(.tryExists backup, .ok true), (.removeDirAll backup, .ok true)]))
      | none => attempt (swapBundle dest temp backup)
          (FsFault.machine none (Function.update disk backup none)
            (served ++ [(.tryExists backup, .ok true), (.removeDirAll backup, .ok true)])) := by
  rcases fault with _ | ⟨_ | _ | n, _ | msg, keeps⟩ <;>
    simp [replaceBundle, FsProgram.attempt_bind, FsProgram.attempt_fs, Machine.serve,
      FsFault.machine, FsFault.fault, FsOp.effect, FsOp.interrupted, hbackup]

end Replace

/-- The fault, `n` operations later. -/
def FsFault.later (n : Nat) (fault : Option (FsFault M T)) : Option (FsFault M T) :=
  fault.map fun f => { f with position := f.position - n }

@[simp] theorem FsFault.later_none (n : Nat) :
    FsFault.later n (none : Option (FsFault M T)) = none := rfl

section Serve

variable {disk : Disk M T} {served : List (FsOp M T × FsAnswer)}

/-- An operation that the fault misses has its effect. -/
theorem serve_miss {fault : Option (FsFault M T)} (hmiss : ∀ f, fault = some f → 1 ≤ f.position)
    (o : FsOp M T) : (FsFault.machine fault disk served).serve (fun disk o => FsOp.effect disk o) o =
      (some (o.effect disk).1, FsFault.machine (FsFault.later 1 fault) (o.effect disk).2
        (served ++ [(o, (o.effect disk).1)])) := by
  rcases fault with _ | ⟨_ | n, refusal, keeps⟩
  · rfl
  · exact absurd (hmiss _ rfl) (by simp)
  · rfl

theorem later_misses {a b : Nat} {fault : Option (FsFault M T)}
    (hmiss : ∀ f, fault = some f → a + b ≤ f.position) :
    ∀ f, FsFault.later a fault = some f → b ≤ f.position := by
  intro f hf
  obtain ⟨g, hg, rfl⟩ := Option.map_eq_some_iff.1 hf
  have := hmiss g hg
  change b ≤ g.position - a
  omega

theorem later_later (a b : Nat) (fault : Option (FsFault M T)) :
    FsFault.later b (FsFault.later a fault) = FsFault.later (a + b) fault := by
  cases fault with
  | none => rfl
  | some f => simp [FsFault.later, Nat.sub_sub]

end Serve

section Build

/-- Write files into a directory one after the other, each with the context of its failure. -/
def writeAll (temp : BundlePath) : List (BundleFile M T × String) → FsProgram M T Unit
  | [] => pure ()
  | (file, context) :: files => do
    let _ ← fs (.writeFile temp file) context
    writeAll temp files

section WriteAll

variable {disk : Disk M T} {temp : BundlePath} {files : List (BundleFile M T × String)}
  {old : List (BundleFile M T)} {served : List (FsOp M T × FsAnswer)}

/-- A build that the fault misses adds its files to the directory. -/
theorem writeAll_miss (served : List (FsOp M T × FsAnswer)) (fault : Option (FsFault M T))
    (htemp : disk temp = some old)
    (hmiss : ∀ f, fault = some f → files.length ≤ f.position) :
    ∃ served', (∀ x ∈ served, x ∈ served') ∧
      attempt (writeAll temp files) (FsFault.machine fault disk served) =
        (some (.ok ()), FsFault.machine (FsFault.later files.length fault)
          (Function.update disk temp (some (old ++ files.map Prod.fst))) served') := by
  induction files generalizing disk old served fault with
  | nil =>
    refine ⟨served, fun _ => id, ?_⟩
    have hsame : Function.update disk temp (some (old ++ ([] : List (BundleFile M T)))) = disk := by
      rw [List.append_nil, ← htemp, Function.update_eq_self]
    have hlater : FsFault.later 0 fault = fault := by cases fault <;> rfl
    rw [List.map_nil, hsame, List.length_nil, hlater]
    rfl
  | cons file files ih =>
    rw [List.length_cons] at hmiss
    have heffect : (FsOp.writeFile temp file.1).effect disk =
        (.ok true, Function.update disk temp (some (old ++ [file.1]))) := by
      simp [FsOp.effect, htemp]
    obtain ⟨served', hserved, hrest⟩ := ih (served ++ [(.writeFile temp file.1, .ok true)])
      (FsFault.later 1 fault) (Function.update_self temp (some (old ++ [file.1])) disk) (later_misses fun f hf => by have := hmiss f hf; omega)
    refine ⟨served', fun x hx => hserved x (List.mem_append_left _ hx), ?_⟩
    rw [writeAll, FsProgram.attempt_bind, FsProgram.attempt_fs,
      serve_miss fun f hf => by have := hmiss f hf; omega]
    simp only [heffect]
    rw [hrest, later_later, Function.update_idem, List.map_cons, List.length_cons, Nat.add_comm 1,
      List.append_assoc, List.singleton_append]

end WriteAll

variable [Sha256] [TableEncoders M T] [Build]

/-- The manifest of a build. -/
def bundleManifest (run : PopulatedRun M) (config : BacktestConfig) (strategy : StrategySpec)
    (runId : RunId) (rowCounts : RowCounts) : Manifest M where
  schema := bundleSchema
  runId
  codeVersion := Build.codeVersion
  lockfileSha256
  seed := config.seed
  config
  strategy
  dataSource := run.dataSource
  metrics := run.metrics
  rowCounts

/-- The files a build writes before an encoder fails, and how it ends. -/
def bundleFiles (run : PopulatedRun M) (config : BacktestConfig) (strategy : StrategySpec)
    (runId : RunId) : List (BundleFile M T × String) × Outcome RowCounts :=
  match TableEncoders.encodeFills run runId with
  | .error e => ([], .error e)
  | .ok (fills, fillRows) =>
    let first := (.fills fills, "create parquet file")
    match TableEncoders.encodeEquity run with
    | .error e => ([first], .error e)
    | .ok (equity, equityRows) =>
      let second := (.equityCurve equity, "create parquet file")
      match TableEncoders.encodePositions run with
      | .error e => ([first, second], .error e)
      | .ok (positions, positionRows) =>
        let third := (.positions positions, "create parquet file")
        match TableEncoders.encodeGreeks run with
        | .error e => ([first, second, third], .error e)
        | .ok (greeks, greeksRows) =>
          let rowCounts : RowCounts := ⟨fillRows, equityRows, positionRows, greeksRows⟩
          ([first, second, third, (.greeksAttribution greeks, "create parquet file"),
            (.manifest (bundleManifest run config strategy runId rowCounts), "write manifest.json")],
            .ok rowCounts)

variable {run : PopulatedRun M} {config : BacktestConfig} {strategy : StrategySpec} {runId : RunId}
  {temp : BundlePath}

/-- A build writes its files and ends as they were encoded. -/
theorem buildInto_eq : (buildInto run config strategy runId temp : FsProgram M T RowCounts) =
    writeAll temp (bundleFiles run config strategy runId).1 >>= fun _ =>
      liftOutcome (bundleFiles (T := T) run config strategy runId).2 := by
  have hok : ∀ {β γ : Type} (b : β) (next : β → FsProgram M T γ),
      liftOutcome (.ok b) >>= next = next b := fun b next => rfl
  have herror : ∀ {β γ : Type} (e : BacktestError) (next : β → FsProgram M T γ),
      (liftOutcome (.error e : Outcome β) : FsProgram M T β) >>= next = liftOutcome (.error e) :=
    fun e next => rfl
  unfold buildInto bundleFiles
  rcases hf : TableEncoders.encodeFills (T := T) run runId with e | ⟨fills, n₁⟩
  · rfl
  rcases he : TableEncoders.encodeEquity (T := T) run with e | ⟨equity, n₂⟩
  · simp only [writeAll, bind_assoc, pure_bind, hok, herror]
  rcases hp : TableEncoders.encodePositions (T := T) run with e | ⟨positions, n₃⟩
  · simp only [writeAll, bind_assoc, pure_bind, hok, herror]
  rcases hg : TableEncoders.encodeGreeks (T := T) run with e | ⟨greeks, n₄⟩
  · simp only [writeAll, bind_assoc, pure_bind, hok, herror]
  · simp only [writeAll, bind_assoc, pure_bind, hok, bundleManifest]
    rfl

/-- The clean-up of an error. -/
def failClean (temp : BundlePath) (error : BacktestError) : FsProgram M T α := do
  fsBestEffort (.removeDirAll temp)
  throw error

variable {dest backup : BundlePath} {disk before : Disk M T}
  {served : List (FsOp M T × FsAnswer)}

/-- What happens after the files of a build are written. -/
def afterBuild (dest temp backup : BundlePath) (destExists : Bool) (outcome : Outcome RowCounts) :
    FsProgram M T Unit :=
  match outcome with
  | .error error => failClean temp error
  | .ok _ =>
    if destExists then replaceBundle dest temp backup
    else do
      let _ ← onError (fs (.rename temp dest) "atomic rename into place") (failClean temp)

omit [Sha256] [TableEncoders M T] [Build] in
/-- A clean-up ends in its error, unless the call is stopped. -/
theorem attempt_failClean {error : BacktestError} {m : FsMachine M T} :
    attempt (failClean temp error : FsProgram M T α) m =
      match m.serve (fun disk o => FsOp.effect disk o) (.removeDirAll temp) with
      | (some _, m') => (some (.error error), m')
      | (none, m') => (none, m') := by
  rw [failClean, FsProgram.attempt_bind, FsProgram.attempt_fsBestEffort]
  rcases m.serve (fun disk o => FsOp.effect disk o) (.removeDirAll temp) with ⟨_ | answer, m'⟩ <;> rfl

/-- A publication creates its directory, writes its files, and goes on as they were encoded. -/
theorem publishBundle_attempt {destExists : Bool} {m : FsMachine M T} :
    attempt (publishBundle run config strategy runId destExists dest temp backup) m =
      attempt (do
        let _ ← fs (.createDir temp) "create temp directory"
        let _ ← onError (writeAll temp (bundleFiles run config strategy runId).1) (failClean temp)
        afterBuild dest temp backup destExists
          (bundleFiles (T := T) run config strategy runId).2) m := by
  have hclean : (fun error => do fsBestEffort (.removeDirAll temp); throw error) =
      (failClean temp : BacktestError → FsProgram M T RowCounts) := rfl
  unfold publishBundle
  rw [FsProgram.attempt_bind, FsProgram.attempt_bind, hclean, buildInto_eq]
  rcases attempt (fs (FsOp.createDir temp) "create temp directory" : FsProgram M T Bool) m
    with ⟨_ | (error | created), m₁⟩
  · rfl
  · rfl
  · simp only [FsProgram.attempt_bind, FsProgram.attempt_onError, FsProgram.attempt_lift]
    rcases attempt (writeAll temp (bundleFiles run config strategy runId).1) m₁
      with ⟨_ | (error | written), m₂⟩
    · rfl
    · simp only [attempt_failClean]
      rcases m₂.serve (fun disk o => FsOp.effect disk o) (.removeDirAll temp)
        with ⟨_ | answer, m₃⟩ <;> rfl
    · rcases (bundleFiles (T := T) run config strategy runId).2 with error | rowCounts
      · simp only [attempt_failClean, afterBuild]
        rcases m₂.serve (fun disk o => FsOp.effect disk o) (.removeDirAll temp)
          with ⟨_ | answer, m₃⟩ <;> rfl
      · rfl

omit [Sha256] [TableEncoders M T] [Build] in
/-- A build that is not struck leaves its files. -/
theorem build_miss (files : List (BundleFile M T × String)) {old : List (BundleFile M T)}
    (served : List (FsOp M T × FsAnswer)) (fault : Option (FsFault M T)) (htemp : disk temp = some old)
    (hmiss : ∀ f, fault = some f → files.length ≤ f.position) :
    ∃ served', (∀ x ∈ served, x ∈ served') ∧
      attempt (onError (writeAll temp files) (failClean temp)) (FsFault.machine fault disk served) =
        (some (.ok ()), FsFault.machine (FsFault.later files.length fault)
          (Function.update disk temp (some (old ++ files.map Prod.fst))) served') := by
  obtain ⟨served', hserved, heval⟩ := writeAll_miss served fault htemp hmiss
  exact ⟨served', hserved, by rw [FsProgram.attempt_onError, heval]⟩

end Build

end IronCondor
