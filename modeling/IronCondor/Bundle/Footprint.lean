import IronCondor.Bundle.Writer

/-! # The footprint of the bundle writer

The writer reads and writes the three siblings its run identity names, whatever the operating
system refuses. Programs are followed through their results: what a step may ask depends on what
the steps before it returned. -/
namespace IronCondor

open Checked

variable {M T α β : Type} {K : Set BundlePath}

/-- The operation names paths of `K` only. -/
def FsOp.Within (K : Set BundlePath) : FsOp M T → Prop
  | .tryExists path => path ∈ K
  | .createDirAll _ => True
  | .createDir path => path ∈ K
  | .removeDirAll path => path ∈ K
  | .rename source target => source ∈ K ∧ target ∈ K
  | .writeFile dir _ => dir ∈ K

theorem update_eqOn {s t : Disk M T} {path : BundlePath} {files : Option (List (BundleFile M T))}
    (h : Set.EqOn s t K) :
    Set.EqOn (Function.update s path files) (Function.update t path files) K := by
  intro k hk
  by_cases hpath : k = path
  · subst hpath
    rw [Function.update_self, Function.update_self]
  · rw [Function.update_of_ne hpath, Function.update_of_ne hpath, h hk]

theorem update_frame {s : Disk M T} {path k : BundlePath} {files : Option (List (BundleFile M T))}
    (hpath : path ∈ K) (hk : k ∉ K) : Function.update s path files k = s k :=
  Function.update_of_ne (fun hsame : k = path => hk (hsame.symm ▸ hpath)) _ _

/-- The effect of an operation is decided by the paths it names. -/
theorem FsOp.effect_congr {o : FsOp M T} (h : o.Within K) {s t : Disk M T} (hst : Set.EqOn s t K) :
    (o.effect s).1 = (o.effect t).1 ∧ Set.EqOn (o.effect s).2 (o.effect t).2 K := by
  cases o with
  | tryExists path => exact ⟨by rw [effect, effect, hst h], hst⟩
  | createDirAll dir => exact ⟨rfl, hst⟩
  | createDir path =>
    simp only [effect]
    rw [hst h]
    split
    · exact ⟨rfl, hst⟩
    · exact ⟨rfl, update_eqOn hst⟩
  | removeDirAll path =>
    simp only [effect]
    rw [hst h]
    split
    · exact ⟨rfl, update_eqOn hst⟩
    · exact ⟨rfl, hst⟩
  | rename source target =>
    simp only [effect]
    rw [hst h.1, hst h.2]
    split
    · exact ⟨rfl, hst⟩
    · exact ⟨rfl, hst⟩
    · exact ⟨rfl, update_eqOn (update_eqOn hst)⟩
  | writeFile dir file =>
    simp only [effect]
    rw [hst h]
    split
    · exact ⟨rfl, hst⟩
    · exact ⟨rfl, update_eqOn hst⟩

/-- An operation changes only paths it names. -/
theorem FsOp.effect_frame {o : FsOp M T} (h : o.Within K) {s : Disk M T} {k : BundlePath}
    (hk : k ∉ K) : (o.effect s).2 k = s k := by
  cases o with
  | tryExists path => rfl
  | createDirAll dir => rfl
  | createDir path =>
    simp only [effect]
    split
    · rfl
    · exact update_frame h hk
  | removeDirAll path =>
    simp only [effect]
    split
    · exact update_frame h hk
    · rfl
  | rename source target =>
    simp only [effect]
    split
    · rfl
    · rfl
    · exact (update_frame h.1 hk).trans (update_frame h.2 hk)
  | writeFile dir file =>
    simp only [effect]
    split
    · rfl
    · exact update_frame h hk

/-- The disk serves an operation from the paths it names, and changes no other. -/
theorem FsOp.within_local {refuses : FsOp M T → Option String} {o : FsOp M T} (h : o.Within K) :
    Prog.Local (FsOp.exec refuses) K o := by
  rcases hrefuses : refuses o with _ | msg
  · have hexec : ∀ s, o.exec refuses s = o.effect s := fun s => by simp only [exec, hrefuses]
    refine ⟨fun hst => ?_, fun hst => ?_, fun hk => ?_⟩
    · rw [hexec, hexec]
      exact (effect_congr h hst).1
    · rw [hexec, hexec]
      exact (effect_congr h hst).2
    · rw [hexec]
      exact effect_frame h hk
  · have hexec : ∀ s, o.exec refuses s = (.error msg, s) := fun s => by
      simp only [exec, hrefuses]
    refine ⟨fun hst => ?_, fun hst => ?_, fun hk => ?_⟩
    · rw [hexec, hexec]
    · rw [hexec, hexec]
      exact hst
    · rw [hexec]

/-- Whatever it is answered, the program names paths of `K` only. -/
def FsProgram.Keeps (K : Set BundlePath) (p : FsProgram M T α) : Prop :=
  Prog.All (FsOp.Within K) p.run

namespace FsProgram

variable {p : FsProgram M T α} {f : α → FsProgram M T β}

theorem keeps_pure (a : α) : Keeps K (pure a : FsProgram M T α) := trivial

theorem keeps_throw (error : BacktestError) : Keeps K (throw error : FsProgram M T α) := trivial

theorem Keeps.bind (hp : Keeps K p) (hf : ∀ a, Keeps K (f a)) : Keeps K (p >>= f) := by
  refine Prog.All.bind hp fun result => ?_
  cases result with
  | ok a => exact hf a
  | error error => trivial

/-- What goes on after a pure result may use that it is one. -/
theorem keeps_lift_bind {r : Outcome α} (hf : ∀ a, r = .ok a → Keeps K (f a)) :
    Keeps K (liftOutcome r >>= f) := by
  cases r with
  | ok a => exact hf a rfl
  | error error => trivial

theorem keeps_fs {o : FsOp M T} {context : String} (h : o.Within K) : Keeps K (fs o context) := by
  refine ⟨h, fun answer => ?_⟩
  cases answer <;> trivial

theorem keeps_fsBestEffort {o : FsOp M T} (h : o.Within K) : Keeps K (fsBestEffort o) :=
  ⟨h, fun _ => trivial⟩

theorem keeps_onError {cleanUp : BacktestError → FsProgram M T α} (hp : Keeps K p)
    (hc : ∀ error, Keeps K (cleanUp error)) : Keeps K (onError p cleanUp) := by
  refine Prog.All.bind hp fun result => ?_
  cases result with
  | ok a => trivial
  | error error => exact hc error

section Writer

variable {run : PopulatedRun M} {config : BacktestConfig} {strategy : StrategySpec} {runId : RunId}
  {dest temp backup : BundlePath}

theorem swapBundle_keeps (hdest : dest ∈ K) (htemp : temp ∈ K) (hbackup : backup ∈ K) :
    Keeps K (swapBundle dest temp backup : FsProgram M T Unit) := by
  refine Keeps.bind (keeps_onError (keeps_fs ⟨hdest, hbackup⟩) fun error =>
    Keeps.bind (keeps_fsBestEffort htemp) fun _ => keeps_throw error) fun _ => ?_
  refine Keeps.bind (keeps_onError (keeps_fs ⟨htemp, hdest⟩) fun error =>
    Keeps.bind (keeps_fsBestEffort ⟨hbackup, hdest⟩) fun _ =>
      Keeps.bind (keeps_fsBestEffort htemp) fun _ => keeps_throw error) fun _ => ?_
  exact keeps_fsBestEffort hbackup

theorem replaceBundle_keeps (hdest : dest ∈ K) (htemp : temp ∈ K) (hbackup : backup ∈ K) :
    Keeps K (replaceBundle dest temp backup : FsProgram M T Unit) := by
  refine Keeps.bind (keeps_fs hbackup) fun stale => ?_
  cases stale with
  | true => exact Keeps.bind (keeps_fs hbackup) fun _ => swapBundle_keeps hdest htemp hbackup
  | false => exact swapBundle_keeps hdest htemp hbackup

variable [Sha256] [TableEncoders M T] [Build]

theorem buildInto_keeps (h : temp ∈ K) :
    Keeps K (buildInto run config strategy runId temp : FsProgram M T RowCounts) := by
  refine keeps_lift_bind fun ⟨fills, _⟩ _ => Keeps.bind (keeps_fs h) fun _ => ?_
  refine keeps_lift_bind fun ⟨equity, _⟩ _ => Keeps.bind (keeps_fs h) fun _ => ?_
  refine keeps_lift_bind fun ⟨positions, _⟩ _ => Keeps.bind (keeps_fs h) fun _ => ?_
  refine keeps_lift_bind fun ⟨greeks, _⟩ _ => Keeps.bind (keeps_fs h) fun _ => ?_
  exact Keeps.bind (keeps_fs h) fun _ => keeps_pure _

theorem publishBundle_keeps {destExists : Bool} (hdest : dest ∈ K) (htemp : temp ∈ K)
    (hbackup : backup ∈ K) : Keeps K (publishBundle run config strategy runId destExists dest temp
      backup : FsProgram M T Unit) := by
  refine Keeps.bind (keeps_fs htemp) fun _ => ?_
  refine Keeps.bind (keeps_onError (buildInto_keeps htemp) fun error =>
    Keeps.bind (keeps_fsBestEffort htemp) fun _ => keeps_throw error) fun _ => ?_
  cases destExists with
  | true => exact replaceBundle_keeps hdest htemp hbackup
  | false =>
    exact Keeps.bind (keeps_onError (keeps_fs ⟨htemp, hdest⟩) fun error =>
      Keeps.bind (keeps_fsBestEffort htemp) fun _ => keeps_throw error) fun _ => keeps_pure _

variable [SerdeJson RunIdPreimage]

/-- The writer names the siblings of its run identity only. -/
theorem writeBundle_keeps (h : ∀ id, RunId.derive config.seed config strategy.canonical
    run.dataIdentity Build.codeVersion lockfileSha256 = .ok id →
      ∀ slot, (⟨config.outputDir, slot, id⟩ : BundlePath) ∈ K) :
    Keeps K (writeBundle T run config strategy) := by
  refine keeps_lift_bind fun id hid => ?_
  have hmine := h id hid
  refine Keeps.bind (keeps_fs (hmine _)) fun destExists => ?_
  have hpublish : Keeps K (do
      publishBundle run config strategy.canonical id destExists ⟨config.outputDir, .dest, id⟩
        ⟨config.outputDir, .temp, id⟩ ⟨config.outputDir, .backup, id⟩
      return ⟨config.outputDir, .dest, id⟩ : FsProgram M T BundlePath) :=
    Keeps.bind (publishBundle_keeps (hmine _) (hmine _) (hmine _)) fun _ => keeps_pure _
  split
  · trivial
  · refine Keeps.bind (keeps_fs trivial) fun _ => Keeps.bind (keeps_fs (hmine _)) fun leftover => ?_
    cases leftover with
    | true => exact Keeps.bind (keeps_fs (hmine _)) fun _ => hpublish
    | false => exact hpublish

end Writer

end FsProgram

end IronCondor
