import IronCondor.Engine.Accounting
import IronCondor.Engine.Trades

/-! # No look-ahead

What a run has done after its first steps depends on the snapshots of these steps alone, and is
never revised: the streams it has recorded are the beginning of the streams it reports. -/
namespace IronCondor

open Checked ExceptRun

variable {S X R : Type}

/-- Every stream of `out` begins with what `s` has recorded. -/
structure Reports (out : BacktestRun) (s : RunState S X R) : Prop where
  equityCurve : s.equityCurve <+: out.equityCurve
  fills : s.engine.bundle.fills <+: out.fills
  positions : s.engine.bundle.positions <+: out.positions
  tradeLog : s.engine.tradeLog.closed <+: out.tradeLog
  attributionSteps : s.attribution.steps <+: out.attributionSteps
  attributionLegs : s.attribution.legs <+: out.attributionLegs

section Recorded

variable [ExecutionModel X] {b : Batch X} {after : EngineState}

theorem Batch.Executed.closed (h : b.Executed after) :
    b.before.tradeLog.closed <+: after.tradeLog.closed := by
  obtain ⟨_, -, hstart⟩ := h.minted
  obtain ⟨trade, hfold⟩ := h.applied
  rw [hstart] at hfold
  exact foldlM_invariant
    (fun s : StepState => b.before.tradeLog.closed <+: s.engine.tradeLog.closed)
    (fun s ev t hs ht => hs.trans (applyEvent_closed ht)) List.prefix_rfl hfold

variable [Strategy S R] [SeedableRng R] {r : Setup S X} {n m : Nat} {log log' : List (Batch X)}
  {s s' : RunState S X R} {out : BacktestRun}

/-- One more step appends to every stream. -/
theorem Setup.reports_succ (h : r.play n = .ok (log, s)) (h' : r.play (n + 1) = .ok (log', s'))
    (hout : Reports out s') : Reports out s := by
  obtain ⟨prior, t, snapshot, b, point, after, hprior, -, -, -, hbefore, -, hexec, -, hsettled,
    hcurve, -, hsampled⟩ := Setup.play_succ_sampled h'
  cases h.symm.trans hprior
  obtain ⟨rows, -, hbundle⟩ := BundleCollector.collectStep_eq_ok hsettled.bundle
  have hbooked := hexec.booked
  have hclosed := hexec.closed
  rw [hbefore] at hbooked hclosed
  obtain ⟨records, hrecords, -⟩ := hbooked.table
  obtain ⟨terminal, hterminal, -⟩ := hbooked.rows
  have hfills : s'.engine.bundle.fills = s.engine.bundle.fills ++ records := by
    rw [hbundle, ← hrecords]
  have hpositions : s'.engine.bundle.positions =
      s.engine.bundle.positions ++ (terminal ++ rows) := by
    rw [hbundle, ← List.append_assoc, ← hterminal]
  have hlog : s'.engine.tradeLog = after.tradeLog := by rw [hsettled.books]
  have hsteps : s.attribution.steps <+: s'.attribution.steps := by
    rw [hsampled]
    exact List.prefix_append _ _
  have hlegs : s.attribution.legs <+: s'.attribution.legs := by
    rw [hsampled]
    exact List.prefix_append _ _
  refine ⟨?_, ?_, ?_, ?_, ?_, ?_⟩
  · exact (hcurve ▸ List.prefix_append _ _).trans hout.equityCurve
  · exact (hfills ▸ List.prefix_append _ _).trans hout.fills
  · exact (hpositions ▸ List.prefix_append _ _).trans hout.positions
  · exact (hlog ▸ hclosed).trans hout.tradeLog
  · exact hsteps.trans hout.attributionSteps
  · exact hlegs.trans hout.attributionLegs

/-- A play that succeeds succeeded at every earlier step. -/
theorem Setup.play_earlier (hn : n ≤ m) (h : r.play m = .ok (log', s')) :
    ∃ log s, (r.play n : Outcome (List (Batch X) × RunState S X R)) = .ok (log, s) := by
  induction m generalizing log' s' with
  | zero =>
    obtain rfl := Nat.le_zero.1 hn
    exact ⟨log', s', h⟩
  | succ m ih =>
    rcases Nat.lt_or_eq_of_le hn with hlt | rfl
    · obtain ⟨prior, t, _, _, _, _, hprior, -⟩ := Setup.play_succ h
      exact ih (Nat.le_of_lt_succ hlt) hprior
    · exact ⟨log', s', h⟩

theorem Setup.reports_earlier (hn : n ≤ m) (h : r.play n = .ok (log, s))
    (h' : r.play m = .ok (log', s')) (hout : Reports out s') : Reports out s := by
  induction m generalizing log' s' with
  | zero =>
    obtain rfl := Nat.le_zero.1 hn
    cases h.symm.trans h'
    exact hout
  | succ m ih =>
    rcases Nat.lt_or_eq_of_le hn with hlt | rfl
    · obtain ⟨log₁, s₁, h₁⟩ := Setup.play_earlier (Nat.le_succ m) h'
      exact ih (Nat.le_of_lt_succ hlt) h₁ (Setup.reports_succ h₁ h' hout)
    · cases h.symm.trans h'
      exact hout

/-- A finished run reports what it had recorded at every step. -/
theorem Setup.reports_run {strategyName : String} (hn : n ≤ r.feed.tape.length)
    (h : r.play n = .ok (log, s))
    (hrun : BacktestEngine.run r.config r.feed.toFeed r.execution r.strategy strategyName =
      .ok out) : Reports out s := by
  obtain ⟨initial, log', s', -, hplay, rfl⟩ := Setup.play_of_run hrun
  refine Setup.reports_earlier hn h hplay ?_
  exact ⟨List.prefix_rfl, List.prefix_rfl, List.prefix_rfl, List.prefix_rfl, List.prefix_rfl,
    List.prefix_rfl⟩

/-- After an error there are no more steps. -/
theorem Setup.play_error_later {e : BacktestError} (hn : n ≤ m)
    (h : (r.play n : Outcome (List (Batch X) × RunState S X R)) = .error e) :
    (r.play m : Outcome (List (Batch X) × RunState S X R)) = .error e := by
  induction m, hn using Nat.le_induction with
  | base => exact h
  | succ m _ ih =>
    rw [Setup.play, ih]
    rfl

/-- A step that fails fails the run, with its error. -/
theorem Setup.run_of_play_error {strategyName : String} {e : BacktestError}
    (hn : n ≤ r.feed.tape.length)
    (h : (r.play n : Outcome (List (Batch X) × RunState S X R)) = .error e) :
    BacktestEngine.run r.config r.feed.toFeed r.execution r.strategy strategyName = .error e := by
  have hend := Setup.play_error_later hn h
  rw [Setup.run_eq_play]
  cases hinitial : BacktestEngine.initialCents r.config with
  | ok initial =>
    rw [hend]
    rfl
  | error e' =>
    have hstart : (r.play 0 : Outcome (List (Batch X) × RunState S X R)) = .error e' := by
      rw [Setup.play, hinitial]
      rfl
    cases (Setup.play_error_later (Nat.zero_le _) hstart).symm.trans hend
    rfl

/-- An error has a first step that fails. -/
theorem Setup.first_error {e : BacktestError}
    (h : (r.play m : Outcome (List (Batch X) × RunState S X R)) = .error e) :
    ∃ k ≤ m, (r.play k : Outcome (List (Batch X) × RunState S X R)) = .error e ∧
      ∀ j < k, ∃ p, (r.play j : Outcome (List (Batch X) × RunState S X R)) = .ok p := by
  induction m with
  | zero => exact ⟨0, le_rfl, h, nofun⟩
  | succ m ih =>
    cases hm : (r.play m : Outcome (List (Batch X) × RunState S X R)) with
    | error e' =>
      cases (Setup.play_error_later (Nat.le_succ m) hm).symm.trans h
      obtain ⟨k, hk, hfirst⟩ := ih hm
      exact ⟨k, Nat.le_succ_of_le hk, hfirst⟩
    | ok p =>
      refine ⟨m + 1, le_rfl, h, fun j hj => ?_⟩
      obtain ⟨log, s, hj⟩ := Setup.play_earlier (Nat.le_of_lt_succ hj) hm
      exact ⟨(log, s), hj⟩

end Recorded

section TwoTapes

variable {config : BacktestConfig} {execution : X} {strategy : S} {feed feed' : MaterialisedFeed}
  {n : Nat}

/-- Before its last snapshot a tape does not show that it ends. -/
theorem not_isLast (hn : n + 1 < feed.tape.length) {k : Nat} (hk : k ≤ n)
    {snapshot : ChainSnapshot} (h : feed.tape[k]? = some snapshot) :
    (Setup.mk config feed execution strategy).isLast snapshot = false := by
  obtain ⟨-, hfinal, hsteps⟩ := TapeMeta.fromTape_eq_ok feed.accepted
  have hstep := hsteps k snapshot h
  refine decide_eq_false fun heq => ?_
  have hvalue := congrArg Bounded.value heq
  change snapshot.step.value = feed.tapeMeta.finalStep.value at hvalue
  omega

variable [ExecutionModel X] [Strategy S R] [SeedableRng R]

/-- Runs over tapes with the same first snapshots do the same while they last. -/
theorem play_congr (hearly : feed.tape.take (n + 1) = feed'.tape.take (n + 1))
    (hn : n + 1 < feed.tape.length) (hn' : n + 1 < feed'.tape.length) {k : Nat} (hk : k ≤ n + 1) :
    ((Setup.mk config feed execution strategy).play k :
      Outcome (List (Batch X) × RunState S X R)) =
      (Setup.mk config feed' execution strategy).play k := by
  have hsame : ∀ j ≤ n, feed.tape[j]? = feed'.tape[j]? := by
    intro j hj
    have hget := congrArg (fun tape : List ChainSnapshot => tape[j]?) hearly
    simpa [List.getElem?_take, Nat.lt_succ_of_le hj] using hget
  induction k with
  | zero => simp only [Setup.play, List.head?_eq_getElem?, hsame 0 (Nat.zero_le n)]
  | succ k ih =>
    have hk' : k ≤ n := Nat.le_of_succ_le_succ hk
    rw [Setup.play, Setup.play, ih (Nat.le_of_succ_le hk)]
    simp only [hsame k hk']
    cases hsnapshot : feed'.tape[k]? with
    | none => rfl
    | some snapshot =>
      have hgoes : (Setup.mk config feed execution strategy).isLast snapshot = false :=
        not_isLast hn hk' ((hsame k hk').trans hsnapshot)
      have hgoes' : (Setup.mk config feed' execution strategy).isLast snapshot = false :=
        not_isLast hn' hk' hsnapshot
      simp only [okOr, ok_bind, hgoes, hgoes']

/-- No look-ahead: on two tapes that agree up to a step before the last of either, the engine
does the same at every step so far. Either both runs fail there with the same error, or both
reach the same state, whose streams begin everything either run reports. -/
theorem no_look_ahead (hearly : feed.tape.take (n + 1) = feed'.tape.take (n + 1))
    (hn : n + 1 < feed.tape.length) (hn' : n + 1 < feed'.tape.length) (strategyName : String) :
    (∀ k ≤ n + 1, ((Setup.mk config feed execution strategy).play k :
        Outcome (List (Batch X) × RunState S X R)) =
      (Setup.mk config feed' execution strategy).play k) ∧
    ((∃ k ≤ n + 1, ∃ e, ((Setup.mk config feed execution strategy).play k :
          Outcome (List (Batch X) × RunState S X R)) = .error e ∧
        (∀ j < k, ∃ p, ((Setup.mk config feed execution strategy).play j :
          Outcome (List (Batch X) × RunState S X R)) = .ok p) ∧
        BacktestEngine.run config feed.toFeed execution strategy strategyName = .error e ∧
        BacktestEngine.run config feed'.toFeed execution strategy strategyName = .error e) ∨
      ∃ log s, ((Setup.mk config feed execution strategy).play (n + 1) :
          Outcome (List (Batch X) × RunState S X R)) = .ok (log, s) ∧
        (∀ out, BacktestEngine.run config feed.toFeed execution strategy strategyName = .ok out →
          Reports out s) ∧
        ∀ out, BacktestEngine.run config feed'.toFeed execution strategy strategyName = .ok out →
          Reports out s) := by
  have hsame : ∀ k ≤ n + 1, ((Setup.mk config feed execution strategy).play k :
      Outcome (List (Batch X) × RunState S X R)) =
      (Setup.mk config feed' execution strategy).play k := fun k hk => play_congr hearly hn hn' hk
  refine ⟨hsame, ?_⟩
  have hnow := hsame (n + 1) le_rfl
  cases hplay : ((Setup.mk config feed execution strategy).play (n + 1) :
      Outcome (List (Batch X) × RunState S X R)) with
  | error e =>
    obtain ⟨k, hk, hfirst, hbefore⟩ := Setup.first_error hplay
    refine .inl ⟨k, hk, e, hfirst, hbefore, ?_, ?_⟩
    · exact Setup.run_of_play_error (r := ⟨config, feed, execution, strategy⟩) hn.le hplay
    · exact Setup.run_of_play_error (r := ⟨config, feed', execution, strategy⟩) hn'.le
        (hnow.symm.trans hplay)
  | ok p =>
    refine .inr ⟨p.1, p.2, rfl, fun out hrun => ?_, fun out hrun => ?_⟩
    · exact Setup.reports_run (r := ⟨config, feed, execution, strategy⟩) hn.le hplay hrun
    · exact Setup.reports_run (r := ⟨config, feed', execution, strategy⟩) hn'.le
        (hnow.symm.trans hplay) hrun

end TwoTapes

open SmallMarket OrderBook in
/-- Whether the dip recovers or goes on, the first two steps are the same. -/
theorem no_look_ahead_dip :
    ((Setup.realistic (ReferenceBook ObOrderId) (config .Realistic) dipFeed
        ⟨restAndTake, []⟩).play 2 :
      Outcome (List (Batch (RealisticFill (ReferenceBook ObOrderId))) × RunState Script _ Unit)) =
      (Setup.realistic (ReferenceBook ObOrderId) (config .Realistic) slideFeed
        ⟨restAndTake, []⟩).play 2 :=
  (no_look_ahead (show dipFeed.tape.take (1 + 1) = slideFeed.tape.take (1 + 1) from rfl)
    (by decide) (by decide) "dip").1 2 le_rfl

end IronCondor
