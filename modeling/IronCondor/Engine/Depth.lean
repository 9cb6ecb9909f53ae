import IronCondor.Engine.Provenance
import IronCondor.Execution.Stock

/-! # What the fills of a call trade with

A call trades only contracts its snapshot quotes: in naive mode a fill is priced from a quote,
and in realistic mode the only orders to trade with are the seeds of the snapshot's quotes. -/
namespace IronCondor

open Checked ExceptRun OrderBook RealisticFill

section Calls

variable {B : Type} [Book B ObOrderId] [LawfulBook B] {snap : ChainSnapshot}
  {submitIds : List OrderId} {profile : LiquidityProfile}

/-- The submit phase trades only what the snapshot quotes. -/
theorem routeCommands_stocked {entries : List (OrderCommand × Nat)} {m : RealisticFill B}
    {r : Routing B} (h : Stocked profile m) (hquoted : SeedsQuoted snap m)
    (hroute : entries.foldlM (routeCommand submitIds snap) ⟨m, [], 0⟩ = .ok r) :
    Stocked profile r.model ∧ ∀ run ∈ r.routed, ∀ fill ∈ run.fills, snap.Quotes fill.contract := by
  have hrun := foldlM_invariant (fun r : Routing B => Stocked profile r.model ∧
    SeedsQuoted snap r.model ∧ ∀ run ∈ r.routed, ∀ fill ∈ run.fills, snap.Quotes fill.contract)
    ?_ ⟨h, hquoted, List.forall_mem_nil _⟩ hroute
  · exact ⟨hrun.1, hrun.2.2⟩
  rintro r ⟨cmd, idx⟩ r' ⟨h, hquoted, hfills⟩ hstep
  rcases routeCommand_cases hstep with ⟨-, rfl⟩ |
    ⟨intent, orderId, m, fills, -, -, hsubmit, hr, -, hmodel⟩
  · exact ⟨h, hquoted, hfills⟩
  obtain ⟨hquoted', hmine⟩ := fillSubmit_quotes h hquoted hsubmit
  have hstocked := fillSubmit_stocked h hsubmit
  refine ⟨?_, ?_, ?_⟩
  · rcases hmodel with ⟨-, hm⟩ | ⟨_, -, -, hm⟩ <;> rw [hm]
    · exact hstocked
    · exact hstocked.setGroups _ _
  · rcases hmodel with ⟨-, hm⟩ | ⟨_, -, -, hm⟩ <;> rw [hm] <;> exact hquoted'
  · rw [hr]
    exact List.forall_mem_append.2 ⟨hfills, List.forall_mem_singleton.2 hmine⟩

/-- One call keeps the books stocked, and trades only what its snapshot quotes. -/
theorem fillAttributed_stocked [DecimalArith] {m m' : RealisticFill B} {cmds : List OrderCommand}
    {a : Attribution} (h : Stocked profile m)
    (hcall : m.fillAttributed cmds submitIds snap = .ok (m', a)) :
    Stocked profile m' ∧ ∀ fill ∈ a.fills, snap.Quotes fill.contract := by
  simp only [fillAttributed, bind_ok_iff, pure_ok_iff, Prod.exists, Prod.mk.injEq] at hcall
  obtain ⟨m₁, carried, hrefresh, m₂, hcancel, r, hroute, rfl, rfl⟩ := hcall
  obtain ⟨h₁, hquoted₁, hcarried⟩ := refreshBooks_stocked (h.setGroups [] []) hrefresh
  obtain ⟨h₂, hquoted₂⟩ := foldlM_invariant
    (fun m => Stocked profile m ∧ SeedsQuoted snap m) (fun m cmd m' hm hstep => by
      obtain ⟨hm', hids, -⟩ := cancelCommand_stocked hm.1 hstep
      exact ⟨hm', fun c seq hseq => hm.2 c seq (by rwa [seedsOf, hids] at hseq)⟩)
    ⟨h₁, hquoted₁⟩ hcancel
  obtain ⟨hstocked, hrouted⟩ := routeCommands_stocked h₂ hquoted₂ hroute
  refine ⟨hstocked, List.forall_mem_append.2 ⟨fun fill hfill => ?_, fun fill hfill => ?_⟩⟩
  · obtain ⟨e, he, rfl⟩ := List.mem_map.1 hfill
    exact hcarried e he
  · obtain ⟨run, hrun, hfill⟩ := List.mem_flatMap.1 hfill
    exact hrouted run hrun fill hfill

end Calls

/-- Every fill of the call trades a contract its snapshot quotes. -/
def Batch.TradesQuotes {X : Type} (b : Batch X) : Prop :=
  ∀ fill ∈ b.fills, b.snapshot.Quotes fill.contract

section Runs

variable {S R : Type} [DecimalArith] [Strategy S R] [SeedableRng R] {n : Nat}

omit [Strategy S R] [SeedableRng R] in
/-- A naive fill is priced from the quote of its contract. -/
theorem NaiveFill.tradesQuotes {b : Batch NaiveFill} {after : EngineState} (h : b.Executed after) :
    b.TradesQuotes := by
  obtain ⟨out, hfold, hout⟩ := bind_ok_iff.1 h.filled
  obtain ⟨-, hfills⟩ := Prod.mk.inj (pure_ok_iff.1 hout)
  obtain ⟨mine, rfl, hall⟩ := naive_fills hfold
  intro fill hfill
  rw [← hfills] at hfill
  obtain ⟨intent, -, hintent⟩ := Pointwise.exists_left hall hfill
  rw [(NaiveFill.fillIntent_eq_ok hintent).2.2.1]
  simp only [NaiveFill.fillIntent, bind_ok_iff, okOr_eq_ok] at hintent
  obtain ⟨quote, hquote, -⟩ := hintent
  unfold ChainSnapshot.Quotes
  rw [hquote]
  rfl

theorem Setup.play_naive_quotes {config : BacktestConfig} {feed : MaterialisedFeed} {strategy : S}
    {log : List (Batch NaiveFill)} {s : RunState S NaiveFill R}
    (h : (Setup.naive config feed strategy).play n = .ok (log, s)) :
    ∀ b ∈ log, b.TradesQuotes :=
  Setup.play_invariant (fun log _ _ => ∀ b ∈ log, b.TradesQuotes) (fun _ _ => List.forall_mem_nil _)
    (fun _ _ _ hlog hexec _ =>
      List.forall_mem_append.2 ⟨hlog, List.forall_mem_singleton.2 (NaiveFill.tradesQuotes hexec)⟩)
    (fun _ _ _ _ _ _ _ hlog _ => hlog) h

variable {B : Type} [Book B ObOrderId] [LawfulBook B]

omit [DecimalArith] [LawfulBook B] [Strategy S R] [SeedableRng R] in
theorem stocked_realistic (config : BacktestConfig) (feed : MaterialisedFeed) (strategy : S) :
    Stocked config.liquidityProfile (Setup.realistic B config feed strategy).execution where
  seeding := rfl
  placed := placed_realistic _ config feed strategy
  seeds contract seq hseq := by
    simp [seedsOf, Setup.realistic, withLiquidityProfile, new] at hseq
  owned contract book i left hbook := by
    simp [Setup.realistic, withLiquidityProfile, new] at hbook

/-- In every reachable state the books are stocked, and every call traded what its snapshot
quotes. -/
theorem Setup.play_stocked {config : BacktestConfig} {feed : MaterialisedFeed} {strategy : S}
    {log : List (Batch (RealisticFill B))} {s : RunState S (RealisticFill B) R}
    (h : (Setup.realistic B config feed strategy).play n = .ok (log, s)) :
    Stocked config.liquidityProfile s.execution ∧ ∀ b ∈ log, b.TradesQuotes := by
  refine Setup.play_invariant
    (fun log x _ => Stocked config.liquidityProfile x ∧ ∀ b ∈ log, b.TradesQuotes)
    (fun _ _ => ⟨stocked_realistic config feed strategy, List.forall_mem_nil _⟩) ?_
    (fun _ _ _ _ _ _ _ hs _ => hs) h
  rintro log b after ⟨hstocked, hlog⟩ hexec -
  obtain ⟨a, ha, hfills, -⟩ := hexec.attributed
  obtain ⟨hstocked', hquotes⟩ := fillAttributed_stocked hstocked ha
  exact ⟨hstocked', List.forall_mem_append.2
    ⟨hlog, List.forall_mem_singleton.2 fun fill hfill => hquotes fill (hfills ▸ hfill)⟩⟩

end Runs

end IronCondor
