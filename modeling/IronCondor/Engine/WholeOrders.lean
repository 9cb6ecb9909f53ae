import IronCondor.Engine.Failures

/-! # A naive call on plain orders

The naive model answers every submitted order with one fill of its whole size, so a call on plain
orders applies them one by one. The rule below turns what one order does to the books into what
the call does, its failures included. -/
namespace IronCondor

open Checked ExceptRun

/-- The one error of the naive model that is neither arithmetic nor about an absent quote: a
spread-fraction offset that fits no `u64`. -/
def SlippageError (e : BacktestError) : Prop :=
  ∃ scaled : Int, e = .Execution
    s!"naive spread-fraction slippage {scaled} out of range for u64 cents"

/-- The failures of a call whose orders the model and the books accept. -/
def Tolerated (e : BacktestError) : Prop := NotExecution e ∨ SlippageError e

theorem tolerated {α : Type} {x : Outcome α} (h : FailsIn NotExecution x) : FailsIn Tolerated x :=
  h.mono fun _ => Or.inl

section Fills

variable [DecimalArith] {m : NaiveFill} {snapshot : ChainSnapshot} {intent : OrderIntent}

omit [DecimalArith] in
theorem assembleFill_notExecution (draft : FillDraft) (mode : ExecutionMode)
    (schedule : FeeSchedule) (charge : FeeCharge) :
    FailsIn NotExecution (assembleFill draft mode schedule charge) := by
  cases charge <;> simp [assembleFill, slippageCents, feeForFill]

theorem adverseOffset_tolerated (quote : QuoteView) (quantity : Quantity) :
    FailsIn Tolerated (m.adverseOffsetCents quote quantity) := by
  unfold NaiveFill.adverseOffsetCents
  cases m.slippage with
  | None => exact .ok _
  | FixedCents cents => exact .ok _
  | SpreadFraction fraction =>
    refine .bind (.narrow fun _ => .inl nofun) fun spread _ => ?_
    refine .bind (.okOr fun _ => .inl nofun) fun product _ => ?_
    refine .bind (.okOr fun _ => .inl nofun) fun half _ => .narrow fun _ => .inr ⟨_, rfl⟩
  | SizeProportional cents => exact tolerated (checked_notExecution _)

/-- A quoted contract is filled, short of an overflow. -/
theorem fillIntent_tolerated (h : snapshot.Quotes intent.contract) :
    FailsIn Tolerated (m.fillIntent intent snapshot) := by
  obtain ⟨quote, hquote⟩ := Option.isSome_iff_exists.1 h
  refine .bind (.of_eq_ok (okOr_eq_ok.2 hquote)) fun quote _ => ?_
  refine .bind (adverseOffset_tolerated _ _) fun offset _ => ?_
  refine .bind ?_ fun price _ => tolerated (assembleFill_notExecution _ _ _ _)
  unfold naiveFillPrice
  cases intent.side <;> exact tolerated (checked_notExecution _)

/-- An absent contract is not. -/
theorem fillIntent_quotes {f : Fill} (h : m.fillIntent intent snapshot = .ok f) :
    snapshot.Quotes intent.contract := by
  simp only [NaiveFill.fillIntent, bind_ok_iff, okOr_eq_ok] at h
  obtain ⟨quote, hquote, -⟩ := h
  exact Option.isSome_iff_exists.2 ⟨quote, hquote⟩

end Fills

section Walk

variable {α : Type} {xs : List α} {order : α → OrderIntent} {fills : List Fill}
  {submitIds : List OrderId} {reasons : CloseReasons} {snapshot : ChainSnapshot}
  {st : EngineState} {E : BacktestError → Prop}

/-- Without groups a submit takes the next id and the next fill. -/
theorem Walk.command_submit {w : Walk} {k : Nat} {intent : OrderIntent} {orderId : OrderId}
    {fill : Fill} (hcursor : w.cursor = ⟨k, none, k⟩) (hid : submitIds[k]? = some orderId)
    (hfill : fills[k]? = some fill) :
    w.command fills submitIds reasons snapshot (.Submit intent, k) = (do
      let (engine, stepTrade) ← w.engine.applySubmit w.stepTrade k orderId intent [fill] reasons
        snapshot
      return ⟨engine, stepTrade, ⟨k + 1, none, k + 1⟩⟩) := by
  have hlt : k < fills.length := (List.getElem?_eq_some_iff.1 hfill).1
  have hrun : fillRun fills k 1 = some [fill] := by
    have hdrop : (fills.drop k).take 1 = [fill] := by
      rw [List.take_one, List.head?_drop, hfill]
      rfl
    rw [fillRun, if_pos (Nat.succ_le_of_lt hlt), hdrop]
  simp only [Walk.command, EngineState.withdrawTarget, OrderCommand.target?, OrderCommand.intent?,
    Cursor.next, Cursor.takeCount, hcursor, hid, hrun, okOr, ok_bind, pure_bind]

theorem commandFills_submits :
    commandFills (xs.map fun x => .Submit (order x)) none = xs.length := by
  simp [commandFills, OrderCommand.intent?, OrderCommand.target?, List.filter_map,
    Function.comp_def]

/-- The orders of a walk, one by one: what each fails in and keeps, the walk fails in and keeps. -/
theorem applyStepFills_submits (hfills : fills.length = xs.length)
    (hids : submitIds.length = xs.length) (P : List α → EngineState → Prop) (hstart : P [] st)
    (hstep : ∀ done x rest fill st trade idx orderId, xs = done ++ x :: rest →
      fills[done.length]? = some fill → P done st →
      FailsIn E (st.applySubmit trade idx orderId (order x) [fill] reasons snapshot) ∧
        ∀ st' trade', st.applySubmit trade idx orderId (order x) [fill] reasons snapshot =
          .ok (st', trade') → P (done ++ [x]) st') :
    FailsIn E (applyStepFills (xs.map fun x => .Submit (order x)) fills none [] submitIds snapshot
        reasons st) ∧
      ∀ st', applyStepFills (xs.map fun x => .Submit (order x)) fills none [] submitIds snapshot
        reasons st = .ok st' → P xs st' := by
  -- the walk stands where the orders done so far end
  let I (done : List (OrderCommand × Nat)) (w : Walk) : Prop :=
    w.cursor = ⟨done.length, none, done.length⟩ ∧ P (xs.take done.length) w.engine
  have hwalk : ∀ done entry rest w,
      (xs.map fun x => OrderCommand.Submit (order x)).zipIdx = done ++ entry :: rest → I done w →
      FailsIn E (w.command fills submitIds reasons snapshot entry) ∧
        ∀ t, w.command fills submitIds reasons snapshot entry = .ok t →
          I (done ++ [entry]) t := by
    rintro done entry rest w hsplit ⟨hcursor, hP⟩
    have hentry : xs[done.length]?.map (fun x => (OrderCommand.Submit (order x), done.length)) =
        some entry := by
      have hat := congrArg (·[done.length]?) hsplit
      simpa [List.getElem?_zipIdx] using hat
    obtain ⟨x, hx, rfl⟩ := Option.map_eq_some_iff.1 hentry
    have hlt := (List.getElem?_eq_some_iff.1 hx).1
    obtain ⟨fill, hfill⟩ : ∃ fill, fills[done.length]? = some fill :=
      ⟨_, List.getElem?_eq_getElem (hfills ▸ hlt)⟩
    obtain ⟨orderId, hid⟩ : ∃ orderId, submitIds[done.length]? = some orderId :=
      ⟨_, List.getElem?_eq_getElem (hids ▸ hlt)⟩
    have hxs : xs = xs.take done.length ++ x :: xs.drop (done.length + 1) := by
      rw [← (List.getElem?_eq_some_iff.1 hx).2, List.getElem_cons_drop, List.take_append_drop]
    have htake : (xs.take done.length).length = done.length := by
      rw [List.length_take]
      omega
    obtain ⟨hfails, hkeeps⟩ := hstep (xs.take done.length) x _ fill w.engine w.stepTrade done.length
      orderId hxs (htake.symm ▸ hfill) hP
    rw [Walk.command_submit hcursor hid hfill]
    refine ⟨.bind hfails fun _ _ => .pure _, fun t ht => ?_⟩
    simp only [bind_ok_iff, pure_ok_iff, Prod.exists] at ht
    obtain ⟨engine, trade, happly, rfl⟩ := ht
    refine ⟨by rw [List.length_append, List.length_singleton], ?_⟩
    rw [List.length_append, List.length_singleton, List.take_add_one, hx]
    exact hkeeps engine trade happly
  have hfirst : I [] ⟨st, none, ⟨0, none, 0⟩⟩ := ⟨rfl, hstart⟩
  have hend : ∀ w, (xs.map fun x => OrderCommand.Submit (order x)).zipIdx.foldlM
      (Walk.command fills submitIds reasons snapshot) ⟨st, none, ⟨0, none, 0⟩⟩ = .ok w →
      w.cursor = ⟨xs.length, none, xs.length⟩ ∧ P xs w.engine := by
    intro w hw
    have hI := foldlM_invariant_at I hfirst
      (fun done entry rest s t hsplit hs => (hwalk done entry rest s hsplit hs).2 t) hw
    simpa [I] using hI
  have hchecked : (xs.map fun x => OrderCommand.Submit (order x)).forM (prevalidate st.pending) =
      .ok () := by
    rw [forM_ok_iff]
    intro cmd hcmd
    obtain ⟨x, -, rfl⟩ := List.mem_map.1 hcmd
    rfl
  have hcovered : coverage (xs.map fun x => .Submit (order x)) fills none [] = .ok () := by
    simp [coverage, commandFills_submits, carryTotal, hfills, require]
  simp only [applyStepFills, hchecked, hcovered, ok_bind, List.foldlM_nil, pure_bind]
  constructor
  · refine .bind (.foldlM I hfirst hwalk) fun w hw => ?_
    refine .bind (.require fun hnot => absurd ?_ hnot) fun _ _ => .pure _
    rw [(hend w hw).1]
    exact ⟨hfills.symm, rfl⟩
  · intro st' h
    simp only [bind_ok_iff, pure_ok_iff] at h
    obtain ⟨w, hw, _, -, rfl⟩ := h
    exact (hend w hw).2

end Walk

section Call

variable [DecimalArith] {S R α : Type} {s : RunState S NaiveFill R} {xs : List α}
  {order : α → OrderIntent} {snapshot : ChainSnapshot} {reasons : CloseReasons}

/-- The fills of plain orders, each of its own order. -/
theorem naive_fills_submits {fills : List Fill} {m : NaiveFill}
    (h : (xs.map fun x => OrderCommand.Submit (order x)).foldlM (m.fillCommand snapshot) [] =
      .ok fills) :
    List.Forall₂ (fun x f => m.fillIntent (order x) snapshot = .ok f) xs fills := by
  obtain ⟨mine, rfl, hmine⟩ := naive_fills h
  have hintents : (xs.map fun x => OrderCommand.Submit (order x)).filterMap OrderCommand.submit? =
      xs.map order := by
    rw [List.filterMap_map, ← List.filterMap_eq_map]
    rfl
  rwa [hintents, List.forall₂_map_left_iff] at hmine

/-- The call rule: what each plain order keeps of the books the whole call keeps, and a call on
quoted contracts fails only in tolerated ways. -/
theorem RunState.execute_submits (s : RunState S NaiveFill R) (xs : List α)
    (order : α → OrderIntent) (reasons : CloseReasons) (snapshot : ChainSnapshot)
    (P : List α → EngineState → Prop)
    (hstart : ∀ ids, ids.position = s.engine.ids.position → P [] { s.engine with ids })
    (hstep : ∀ done x rest fill st trade idx orderId, xs = done ++ x :: rest →
      s.execution.fillIntent (order x) snapshot = .ok fill → P done st →
      FailsIn Tolerated (st.applySubmit trade idx orderId (order x) [fill] reasons snapshot) ∧
        ∀ st' trade', st.applySubmit trade idx orderId (order x) [fill] reasons snapshot =
          .ok (st', trade') → P (done ++ [x]) st') :
    ((∀ x ∈ xs, snapshot.Quotes (order x).contract) → FailsIn Tolerated
        (s.execute (xs.map fun x => .Submit (order x)) reasons snapshot)) ∧
      ∀ s', s.execute (xs.map fun x => .Submit (order x)) reasons snapshot = .ok s' →
        (∀ x ∈ xs, snapshot.Quotes (order x).contract) ∧ P xs s'.engine ∧
          s'.strategy = s.strategy ∧ s'.execution = s.execution := by
  have hwalk : ∀ ids submitIds fills,
      mintSubmitIds s.engine.ids (xs.map fun x => .Submit (order x)) = .ok (ids, submitIds) →
      (xs.map fun x => OrderCommand.Submit (order x)).foldlM (s.execution.fillCommand snapshot) [] =
        .ok fills →
      FailsIn Tolerated (applyStepFills (xs.map fun x => .Submit (order x)) fills none [] submitIds
          snapshot reasons { s.engine with ids }) ∧
        ∀ st', applyStepFills (xs.map fun x => .Submit (order x)) fills none [] submitIds snapshot
          reasons { s.engine with ids } = .ok st' → P xs st' := by
    intro ids submitIds fills hids hfills
    have hmine := naive_fills_submits hfills
    obtain ⟨hposition, hcount, -⟩ := mintSubmitIds_eq_ok hids
    refine applyStepFills_submits hmine.length_eq.symm ?_ P (hstart ids hposition) ?_
    · rw [hcount]
      simp [OrderCommand.intent?]
    · intro done x rest fill st trade idx orderId hsplit hfill hP
      refine hstep done x rest fill st trade idx orderId hsplit ?_ hP
      exact Pointwise.related_at hmine (by simp [hsplit]) hfill
  constructor
  · intro hquoted
    refine .bind (tolerated (mintSubmitIds_notExecution _ _)) fun minted hids => ?_
    refine .bind (.bind (.foldlM_each fun out cmd hcmd => ?_) fun _ _ => .pure _)
      fun called hcalled => ?_
    · obtain ⟨x, hx, rfl⟩ := List.mem_map.1 hcmd
      exact .bind (fillIntent_tolerated (hquoted x hx)) fun _ _ => .pure _
    · obtain ⟨fills, hfills, hcalled⟩ := bind_ok_iff.1 hcalled
      cases hcalled
      exact .bind (hwalk _ _ _ hids hfills).1 fun _ _ => .pure _
  · intro s' h
    simp only [RunState.execute, bind_ok_iff, pure_ok_iff, Prod.exists] at h
    obtain ⟨ids, submitIds, hids, execution, fills, hcalled, engine, happly, rfl⟩ := h
    obtain ⟨fills, hfills, hcalled⟩ := bind_ok_iff.1 hcalled
    cases hcalled
    refine ⟨fun x hx => ?_, (hwalk _ _ _ hids hfills).2 engine happly, rfl, rfl⟩
    obtain ⟨f, -, hf⟩ := Pointwise.exists_right (naive_fills_submits hfills) hx
    exact fillIntent_quotes hf

end Call

end IronCondor
