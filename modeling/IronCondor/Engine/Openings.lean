import IronCondor.Engine.Depth
import IronCondor.Engine.Inventory
import IronCondor.Engine.LedgerSteps
import IronCondor.Engine.Lifecycle

/-! # What is retained of an open leg

A leg opens at a step that quotes its contract. What the ledger keeps per contract is moved at
every settlement that holds and quotes the contract, and is never cleared; it is therefore never
older than the leg. -/
namespace IronCondor

open Checked ExceptRun Ledger

/-- What the last of some snapshots that quotes the contract shows of it. -/
def lastQuoted {α : Type} (f : QuoteView → α) (contract : ContractKey)
    (snapshots : List ChainSnapshot) : Option α :=
  (snapshots.filterMap fun snap => snap.quotes[contract]?.map f).getLast?

/-- The snapshots from step `first` to before step `n`. -/
def between (tape : List ChainSnapshot) (first n : Nat) : List ChainSnapshot :=
  (tape.take n).drop first

/-- A leg opened at step `first`, which quotes its contract, by the first of its fills. -/
structure OpenedAt (tape : List ChainSnapshot) (fills : List FillRecord) (leg : OpenPosition)
    (first : Nat) : Prop where
  head : (fillsOn leg.positionId fills).head?.map stepOf = some (first : Int)
  quoted : ∃ snapshot, tape[first]? = some snapshot ∧ snapshot.Quotes leg.contract

/-- A store of the ledger that follows the quotes of the contracts it holds: fills leave it alone,
and a settlement moves the held and quoted contracts. -/
structure FollowsQuotes {α : Type} (f : QuoteView → α) (store : Ledger → ContractKey → Option α) :
    Prop where
  fresh : ∀ initial contract, store (.new initial) contract = none
  fills : ∀ {l l' : Ledger} {multiplier fills}, l.applyFills multiplier fills = .ok l' →
    store l' = store l
  sampled : ∀ l legs multiplier, store (l.collectAttributionMarks legs multiplier) = store l
  settled : ∀ {l l' : Ledger} {step ts legs snapshot point},
    l.settle step ts legs snapshot = .ok (l', point) → ∀ contract, store l' contract =
      if ∃ leg ∈ legs, compare leg.contract contract = .eq then
        (snapshot.quotes[contract]?.map f).or (store l contract)
      else store l contract

/-- Every open leg opened at a step that quoted its contract, and its contract is stored as the
last snapshot since then that quoted it shows it. -/
def RetainsQuoted {α : Type} (f : QuoteView → α) (store : Ledger → ContractKey → Option α)
    (tape : List ChainSnapshot) (n : Nat) (st : EngineState) : Prop :=
  ∀ leg ∈ st.inventory, ∃ first : Nat, first ≤ n - 1 ∧ OpenedAt tape st.bundle.fills leg first ∧
    store st.ledger leg.contract = lastQuoted f leg.contract (between tape first n)

section Snapshots

variable {α : Type} {f : QuoteView → α} {tape : List ChainSnapshot} {contract : ContractKey}
  {snapshot : ChainSnapshot} {first n : Nat}

theorem lastQuoted_append (snapshots : List ChainSnapshot) :
    lastQuoted f contract (snapshots ++ [snapshot]) =
      (snapshot.quotes[contract]?.map f).or (lastQuoted f contract snapshots) := by
  unfold lastQuoted
  rw [List.filterMap_append, List.getLast?_append]
  cases hquote : snapshot.quotes[contract]? <;> simp [hquote]

theorem between_self : between tape n n = [] := by
  unfold between
  exact List.drop_eq_nil_of_le (List.length_take_le _ _)

theorem between_succ (hsnapshot : tape[n]? = some snapshot) (hle : first ≤ n) :
    between tape first (n + 1) = between tape first n ++ [snapshot] := by
  have hlength := (List.getElem?_eq_some_iff.1 hsnapshot).1
  unfold between
  rw [List.take_add_one, hsnapshot, Option.toList_some, List.drop_append_of_le_length]
  rw [List.length_take]
  omega

/-- From a step that quotes it on, a contract has a last quote. -/
theorem lastQuoted_isSome (hfirst : tape[first]? = some snapshot)
    (hquoted : snapshot.Quotes contract) (hlt : first < n) (hn : n ≤ tape.length) :
    (lastQuoted f contract (between tape first n)).isSome := by
  induction n with
  | zero => omega
  | succ n ih =>
    obtain ⟨last, hlast⟩ : ∃ last, tape[n]? = some last :=
      ⟨_, List.getElem?_eq_getElem (Nat.lt_of_succ_le hn)⟩
    rw [between_succ hlast (Nat.le_of_lt_succ hlt), lastQuoted_append, Option.isSome_or]
    rcases Nat.lt_or_ge first n with hbefore | hnow
    · rw [ih hbefore (Nat.le_of_succ_le hn), Bool.or_true]
    · obtain rfl : first = n := by omega
      cases hfirst.symm.trans hlast
      rw [Option.isSome_map, hquoted, Bool.true_or]

end Snapshots

section Legs

variable {inventory inventory' : List OpenPosition} {leg : OpenPosition} {positionId : PositionId}
  {snapshot : ChainSnapshot} {held : Option PositionId} {intent : OrderIntent} {run : List Fill}

theorem mem_updateLeg {f : OpenPosition → OpenPosition} (h : leg ∈ updateLeg positionId f inventory) :
    ∃ old ∈ inventory, leg = old ∨ leg = f old := by
  induction inventory with
  | nil => cases h
  | cons first legs ih =>
    unfold updateLeg at h
    split_ifs at h
    · rcases List.mem_cons.1 h with rfl | h
      · exact ⟨first, List.mem_cons_self, .inr rfl⟩
      · exact ⟨leg, List.mem_cons_of_mem _ h, .inl rfl⟩
    · rcases List.mem_cons.1 h with rfl | h
      · exact ⟨leg, List.mem_cons_self, .inl rfl⟩
      · obtain ⟨old, hold, hleg⟩ := ih h
        exact ⟨old, List.mem_cons_of_mem _ hold, hleg⟩

/-- Every leg the inventory gains is in a contract the snapshot quotes. -/
def GainsQuoted (snapshot : ChainSnapshot) (next : Int) (inventory : List OpenPosition) : Prop :=
  ∀ leg ∈ inventory, leg.positionId.value < next ∨ snapshot.Quotes leg.contract

theorem LegStep.gainsQuoted {next : Int} (h : LegStep held intent run inventory inventory')
    (hquotes : ∀ fill ∈ run, snapshot.Quotes fill.contract)
    (hgains : GainsQuoted snapshot next inventory) : GainsQuoted snapshot next inventory' := by
  cases h with
  | opened first agg leg action fresh head average contract side quantity entry =>
    refine List.forall_mem_append.2 ⟨hgains, List.forall_mem_singleton.2 (.inr ?_)⟩
    rw [contract]
    exact hquotes first (List.mem_of_mem_head? head)
  | extended positionId leg quantity premium action found leg_eq grown =>
    intro leg' hleg'
    obtain ⟨old, hold, heq | heq⟩ := mem_updateLeg hleg' <;> rw [heq] <;> exact hgains old hold
  | reduced positionId leg quantity action leg_eq left =>
    intro leg' hleg'
    obtain ⟨old, hold, heq | heq⟩ := mem_updateLeg hleg' <;> rw [heq] <;> exact hgains old hold
  | flattened positionId leg action leg_eq all =>
    exact fun leg' hleg' => hgains leg' (List.mem_of_mem_eraseP hleg')

end Legs

section Calls

variable {X : Type} [ExecutionModel X] [TrackingModel X] {log : List (Batch X)} {b : Batch X}
  {after : EngineState}

/-- A leg a call leaves open was open before it, or is new and in a contract its snapshot
quotes. -/
theorem gained_call (ht : OrdersTracked log b.model b.before) (hlinked : Linked b.before)
    (ha : OpensAnchored (fun _ _ => True) b.before) (hquotes : b.TradesQuotes)
    (hexec : b.Executed after) {leg : OpenPosition} (hleg : leg ∈ after.inventory) :
    (∃ old ∈ b.before.inventory, old.positionId = leg.positionId ∧ old.contract = leg.contract) ∨
      b.before.ids.position.value ≤ leg.positionId.value ∧ b.snapshot.Quotes leg.contract := by
  obtain ⟨ids, hmint, hstart⟩ := hexec.minted
  obtain ⟨hposition, -⟩ := mintSubmitIds_eq_ok hmint
  have hrun := (ht.events_along hexec (fun _ => trivial) hexec.carriesOwn along_true (fun st =>
    Linked st ∧ OpensAnchored (fun _ _ => True) st ∧ Keeps b.before st ∧
      GainsQuoted b.snapshot b.before.ids.position.value st.inventory) ?_ ?_).1
  · obtain ⟨hlinked', -, hkeeps, hgains⟩ := hrun
    by_cases hold : leg.positionId.value < b.before.ids.position.value
    · obtain ⟨entry, hentry, hcontract, -⟩ :=
        hlinked'.opens_of_findLeg (findLeg_of_mem hlinked'.nodup hleg)
      obtain ⟨kept, hkept, -, hsame, -⟩ := hkeeps.leg leg.positionId entry hold hentry
      have hopen : _ = (findLeg b.before.inventory leg.positionId).isSome := hlinked.opens_isSome
      rw [hkept] at hopen
      obtain ⟨old, hfound⟩ := Option.isSome_iff_exists.1 hopen.symm
      obtain ⟨found, hfound', hcontract', -⟩ := hlinked.opens_of_findLeg hfound
      cases hkept.symm.trans hfound'
      obtain ⟨hmem, hid⟩ := findLeg_some hfound
      exact .inl ⟨old, hmem, hid, hcontract'.symm.trans (hsame.trans hcontract)⟩
    · exact .inr ⟨not_lt.1 hold, (hgains leg hleg).resolve_left hold⟩
  · rintro s t ev hev - hecho ⟨hlinked, ha, hkeeps, hgains⟩ happly
    obtain ⟨hlinked', ha', hkeeps'⟩ := applyEvent_linked hlinked ha hecho happly
    have hevent : ∀ fill ∈ ev.fills, b.snapshot.Quotes fill.contract := fun fill hfill =>
      hquotes fill (correlate_fills hexec.correlated ▸ List.mem_flatMap.2 ⟨ev, hev, hfill⟩)
    refine ⟨hlinked', ha', hkeeps.trans hkeeps', ?_⟩
    have hstep := applyEvent_legStep happly
    cases ev with
    | carried orderId run =>
      obtain ⟨entry, -, hstep⟩ := hstep
      exact hstep.gainsQuoted hevent hgains
    | withdrawn orderId =>
      rw [show t.engine.inventory = s.engine.inventory from hstep]
      exact hgains
    | submitted idx orderId intent run =>
      rcases hstep with ⟨-, hsame⟩ | ⟨-, hstep⟩
      · rw [hsame]
        exact hgains
      · exact hstep.gainsQuoted hevent hgains
  · rw [hstart]
    have hkeeps : Keeps b.before { b.before with ids } := .frame hposition rfl
    refine ⟨hlinked.frame rfl hposition rfl rfl, hkeeps.opensAnchored rfl ha, hkeeps, ?_⟩
    exact fun leg hleg => .inl (hlinked.minted _ (List.mem_map_of_mem hleg))

/-- The legs a call leaves open opened at its step, or had opened before it. -/
theorem openings_call {tape : List ChainSnapshot} {n : Nat} {final : StepIndex}
    {P : ContractKey → Nat → Prop}
    (ht : OrdersTracked log b.model b.before) (hlinked : Linked b.before)
    (ha : OpensAnchored (fun _ _ => True) b.before) (hl : Lived n n final b.before)
    (hstamps : StampsSteps X) (hquotes : b.TradesQuotes) (hsnapshot : tape[n]? = some b.snapshot)
    (hstep : b.snapshot.step.value = (n : Int)) (hexec : b.Executed after)
    (hopen : ∀ leg ∈ b.before.inventory, ∃ first : Nat, first ≤ n - 1 ∧
      OpenedAt tape b.before.bundle.fills leg first ∧ P leg.contract first)
    {leg : OpenPosition} (hleg : leg ∈ after.inventory) :
    ∃ first : Nat, first ≤ n ∧ OpenedAt tape after.bundle.fills leg first ∧
      (first = n ∨ P leg.contract first) := by
  obtain ⟨records, hrecords, -⟩ := hexec.booked.table
  have hmine : records.map FillRecord.fill = b.fills := by
    have hfills := (hexec.booked.fills hexec).1
    rw [hrecords, List.map_append] at hfills
    exact List.append_cancel_left hfills
  rcases gained_call ht hlinked ha hquotes hexec hleg with ⟨old, hold, hid, hcontract⟩ | ⟨hnew, hq⟩
  · obtain ⟨first, hfirst, ⟨hhead, hopened⟩, hkept⟩ := hopen old hold
    rw [hid] at hhead
    rw [hcontract] at hopened hkept
    refine ⟨first, by omega, ⟨?_, hopened⟩, .inr hkept⟩
    rw [hrecords, fillsOn_append]
    exact head?_append_of_map hhead
  · refine ⟨n, le_rfl, ⟨?_, b.snapshot, hsnapshot, hq⟩, .inl rfl⟩
    -- a leg minted by the call has no fill from before it
    obtain ⟨hlinked', hl'⟩ := lived_call ht hlinked ha hl hstep hexec
    have hnone : fillsOn leg.positionId b.before.bundle.fills = [] :=
      List.filter_eq_nil_iff.2 fun record hrecord heq => by
        have hlt := hl.minted record hrecord
        rw [of_decide_eq_true heq] at hlt
        omega
    have hlive : (after.bundle.openLegs[leg.positionId]?).isSome = true := by
      rw [hlinked'.openLegs_isSome, findLeg_of_mem hlinked'.nodup hleg]
      rfl
    have hlife := hl'.life leg.positionId
    rw [hlive, hrecords, fillsOn_append, hnone, List.nil_append] at hlife
    rw [hrecords, fillsOn_append, hnone, List.nil_append]
    cases hlife with
    | opened first _ head _ =>
      obtain ⟨record, hrecord, -⟩ := Option.map_eq_some_iff.1 head
      have hmem := (List.mem_filter.1 (List.mem_of_mem_head? hrecord)).1
      have hfill : record.fill ∈ b.fills := hmine ▸ List.mem_map_of_mem hmem
      have hat : record.fill.step.value = (n : Int) := by
        rw [hstamps _ _ _ _ _ _ hexec.filled _ hfill, hstep]
      rw [hrecord, Option.map_some, stepOf, hat]

/-- At the end of a call the quotes of its snapshot, over what was retained, give the last quotes
of the open legs. -/
theorem RetainsQuoted.call {α : Type} {f : QuoteView → α} {store : Ledger → ContractKey → Option α}
    {tape : List ChainSnapshot} {n : Nat} {final : StepIndex}
    (hretains : RetainsQuoted f store tape n b.before) (ht : OrdersTracked log b.model b.before)
    (hlinked : Linked b.before) (ha : OpensAnchored (fun _ _ => True) b.before)
    (hl : Lived n n final b.before) (hstamps : StampsSteps X) (hquotes : b.TradesQuotes)
    (hsnapshot : tape[n]? = some b.snapshot) (hstep : b.snapshot.step.value = (n : Int))
    (hexec : b.Executed after) {leg : OpenPosition} (hleg : leg ∈ after.inventory) :
    ∃ first : Nat, first ≤ n ∧ OpenedAt tape after.bundle.fills leg first ∧
      (b.snapshot.quotes[leg.contract]?.map f).or (store b.before.ledger leg.contract) =
        lastQuoted f leg.contract (between tape first (n + 1)) := by
  obtain ⟨first, hle, hopened, hkept⟩ := openings_call (P := fun contract first =>
    store b.before.ledger contract = lastQuoted f contract (between tape first n)) ht hlinked ha hl hstamps hquotes hsnapshot
    hstep hexec hretains hleg
  refine ⟨first, hle, hopened, ?_⟩
  rw [between_succ hsnapshot hle, lastQuoted_append]
  rcases hkept with rfl | hsame
  · obtain ⟨opening, hfound, hquoted⟩ := hopened.quoted
    cases hsnapshot.symm.trans hfound
    obtain ⟨quote, hquote⟩ := Option.isSome_iff_exists.1 hquoted
    rw [hquote]
    rfl
  · rw [hsame]

end Calls

section Runs

variable {S X R α : Type} [ExecutionModel X] [TrackingModel X] [Strategy S R] [SeedableRng R]
  {r : Setup S X} {n : Nat} {log : List (Batch X)} {s : RunState S X R} {f : QuoteView → α}
  {store : Ledger → ContractKey → Option α}

/-- The settlement of step `n`, seen from the legs open after its call: what was retained of
each, under the quotes of the step, is what the last snapshot since its opening shows. -/
structure RetainedStep (f : QuoteView → α) (store : Ledger → ContractKey → Option α)
    (tape : List ChainSnapshot) (n : Nat) (isLast : Bool) (beginOfStep : List OpenPosition)
    (snapshot : ChainSnapshot) (after final : EngineState) (point : EquityPoint) : Prop where
  snapshot_eq : tape[n]? = some snapshot
  settled : after.Settled snapshot isLast point final
  ledger : (after.ledger.collectAttributionMarks beginOfStep snapshot.spec.contractMultiplier).settle
    snapshot.step snapshot.ts after.inventory snapshot = .ok (final.ledger, point)
  legs : ∀ leg ∈ after.inventory, ∃ first : Nat, first ≤ n ∧
    OpenedAt tape after.bundle.fills leg first ∧
    (snapshot.quotes[leg.contract]?.map f).or (store after.ledger leg.contract) =
      lastQuoted f leg.contract (between tape first (n + 1))

theorem Setup.retainedStep (hstore : FollowsQuotes f store) (hidle : Idle r.execution)
    (hstamps : StampsSteps X)
    (hquotes : ∀ n log (s : RunState S X R), r.play n = .ok (log, s) → ∀ b ∈ log, b.TradesQuotes)
    (hretains : ∀ prior (t : RunState S X R), r.play n = .ok (prior, t) →
      RetainsQuoted f store r.feed.tape n t.engine)
    (h : r.play (n + 1) = .ok (log, s)) : ∃ beginOfStep snapshot after point,
      RetainedStep f store r.feed.tape n (r.isLast snapshot) beginOfStep snapshot after s.engine
        point := by
  obtain ⟨-, -, hsteps⟩ := TapeMeta.fromTape_eq_ok r.feed.accepted
  have hq := hquotes (n + 1) log s h
  obtain ⟨prior, t, snapshot, b, point, after, hprior, hsnapshot, rfl, rfl, hbefore, hmodel,
    hexec, -, hsettled, -, hledger, -⟩ := Setup.play_succ_sampled h
  obtain ⟨ht, hlinked, ha⟩ := Setup.play_linked hidle hprior
  have hl := (Setup.play_lived hidle hprior).later (Nat.sub_le n 1)
  have hretains := hretains prior t hprior
  refine ⟨t.engine.inventory, b.snapshot, after, point, hsnapshot, hsettled, hledger, ?_⟩
  rw [← hbefore] at ht hlinked ha hl hretains
  rw [← hmodel] at ht
  intro leg hleg
  rw [hstore.fills hexec.ledger]
  exact hretains.call ht hlinked ha hl hstamps (hq b (by simp)) hsnapshot (hsteps n _ hsnapshot)
    hexec hleg

/-- In every reachable state a store that follows the quotes retains the open legs. -/
theorem Setup.play_retainsQuoted (hstore : FollowsQuotes f store) (hidle : Idle r.execution)
    (hstamps : StampsSteps X)
    (hquotes : ∀ n log (s : RunState S X R), r.play n = .ok (log, s) → ∀ b ∈ log, b.TradesQuotes)
    (h : r.play n = .ok (log, s)) : RetainsQuoted f store r.feed.tape n s.engine := by
  obtain ⟨-, -, hsteps⟩ := TapeMeta.fromTape_eq_ok r.feed.accepted
  induction n generalizing log s with
  | zero =>
    have hq := hquotes 0 log s h
    obtain ⟨initial, first, b, -, hfirst, rfl, rfl, hbefore, hmodel, hexec, -, -⟩ :=
      Setup.play_zero h
    have ht : OrdersTracked [] b.model b.before := by
      rw [hmodel, hbefore]
      exact .start hidle initial
    have hlived : Lived 0 0 r.feed.tapeMeta.finalStep b.before := hbefore ▸ lived_new 0 0 _ initial
    intro leg hleg
    obtain ⟨opening, hle, hopened, -⟩ := openings_call (P := fun _ _ => True) ht
      (hbefore ▸ linked_new initial) (hbefore ▸ opensAnchored_new initial)
      hlived hstamps (hq b (by simp)) hfirst (hsteps 0 _ hfirst) hexec
      (by rw [hbefore]; exact List.forall_mem_nil _) hleg
    obtain rfl := Nat.le_zero.1 hle
    refine ⟨0, le_rfl, hopened, ?_⟩
    rw [between_self, hstore.fills hexec.ledger, hbefore]
    exact hstore.fresh initial leg.contract
  | succ n ih =>
    obtain ⟨beginOfStep, snapshot, after, point, hstep⟩ :=
      Setup.retainedStep hstore hidle hstamps hquotes (fun _ _ hprior => ih hprior) h
    obtain ⟨_, -, hbundle⟩ := BundleCollector.collectStep_eq_ok hstep.settled.bundle
    have hinventory : s.engine.inventory = after.inventory := by rw [hstep.settled.books]
    intro leg hleg
    rw [hinventory] at hleg
    obtain ⟨first, hle, hopened, hlast⟩ := hstep.legs leg hleg
    have hheld : ∃ held ∈ after.inventory, compare held.contract leg.contract = .eq :=
      ⟨leg, hleg, Std.ReflCmp.compare_self⟩
    refine ⟨first, hle, ?_, ?_⟩
    · rw [hbundle]
      exact hopened
    · rw [hstore.settled hstep.ledger, if_pos hheld, hstore.sampled]
      exact hlast

/-- Every settled step of a run. -/
theorem Setup.play_retainedStep (hstore : FollowsQuotes f store) (hidle : Idle r.execution)
    (hstamps : StampsSteps X)
    (hquotes : ∀ n log (s : RunState S X R), r.play n = .ok (log, s) → ∀ b ∈ log, b.TradesQuotes)
    (h : r.play (n + 1) = .ok (log, s)) : ∃ beginOfStep snapshot after point,
      RetainedStep f store r.feed.tape n (r.isLast snapshot) beginOfStep snapshot after s.engine
        point :=
  Setup.retainedStep hstore hidle hstamps hquotes
    (fun _ _ hprior => Setup.play_retainsQuoted hstore hidle hstamps hquotes hprior) h

end Runs

end IronCondor
