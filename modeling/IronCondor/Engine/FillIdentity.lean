import IronCondor.Data.SmallMarket
import IronCondor.Engine.Recorded
import IronCondor.Lib.ReferenceBook

/-! # The identity of a fill

Sequence numbers, legs and trades are handed out on the first fill of an order and carried on
through the registry. `Identified` is the invariant that makes them agree over the whole life of
an order; it needs nothing of the fill model. -/
namespace IronCondor

open Checked ExceptRun

/-- The records of one order, in the order they were recorded. -/
def recordsOf (orderId : OrderId) (records : List FillRecord) : List FillRecord :=
  records.filter fun record => record.orderId = orderId

/-- The leg a resting entry fills: the one an open has built, or the one a close names. -/
def PendingEntry.leg (entry : PendingEntry) : Option PositionId :=
  match entry.pending.intent.action with
  | .Open => entry.positionId
  | .Close positionId => some positionId

/-- The books know the order: it has recorded a fill, or rests. -/
def Known (st : EngineState) (orderId : OrderId) : Prop :=
  (∃ record ∈ st.bundle.fills, record.orderId = orderId) ∨ (st.pending[orderId]?).isSome

/-- Every order is numbered from zero, on one leg, and every leg has one trade, `tradeOf` of
it; the registry knows where each resting order stands. -/
structure Identified (tradeOf : PositionId → TradeId) (st : EngineState) : Prop where
  numbered : ∀ orderId, Numbered (fun record : FillRecord => record.fillSeq.value) 0
    (recordsOf orderId st.bundle.fills)
  counted : ∀ (orderId : OrderId) (entry : PendingEntry), st.pending[orderId]? = some entry →
    entry.fillsSoFar.value = (recordsOf orderId st.bundle.fills).length
  resting : ∀ (orderId : OrderId) (entry : PendingEntry), st.pending[orderId]? = some entry →
    ∀ record ∈ st.bundle.fills, record.orderId = orderId → entry.leg = some record.positionId
  sameLeg : ∀ record ∈ st.bundle.fills, ∀ other ∈ st.bundle.fills,
    record.orderId = other.orderId → record.positionId = other.positionId
  minted : ∀ record ∈ st.bundle.fills, record.positionId.value < st.ids.position.value
  trade : ∀ record ∈ st.bundle.fills, record.tradeId = tradeOf record.positionId
  openLegs : ∀ (positionId : PositionId) (entry : LegMeta),
    st.bundle.openLegs[positionId]? = some entry →
      positionId.value < st.ids.position.value ∧ entry.tradeId = tradeOf positionId
  pendingOpen : ∀ (orderId : OrderId) (entry : PendingEntry), st.pending[orderId]? = some entry →
    entry.pending.intent.action = .Open → entry.tradeId ≠ none ∧
      ∀ positionId, entry.positionId = some positionId →
        positionId.value < st.ids.position.value ∧ entry.tradeId = some (tradeOf positionId)

section Records

variable {orderId : OrderId} {tradeId : TradeId} {positionId : PositionId} {base : Int}
  {run : List Fill} {records old : List FillRecord}

theorem recordsOf_append (orderId : OrderId) (records records' : List FillRecord) :
    recordsOf orderId (records ++ records') =
      recordsOf orderId records ++ recordsOf orderId records' :=
  List.filter_append ..

theorem Tagged.recordsOf_self (h : Tagged orderId tradeId positionId base run records) :
    recordsOf orderId records = records :=
  List.filter_eq_self.2 fun record hrecord => decide_eq_true (h.tags record hrecord).1

theorem Tagged.recordsOf_ne (h : Tagged orderId tradeId positionId base run records)
    {other : OrderId} (hne : other ≠ orderId) : recordsOf other records = [] :=
  List.filter_eq_nil_iff.2 fun record hrecord heq =>
    hne ((of_decide_eq_true heq).symm.trans (h.tags record hrecord).1)

theorem Tagged.length (h : Tagged orderId tradeId positionId base run records) :
    records.length = run.length := by
  rw [← h.fills, List.length_map]

end Records

section Step

variable {tradeOf : PositionId → TradeId} {st st' : EngineState} {orderId : OrderId}
  {tradeId : TradeId} {positionId : PositionId} {held : Option PositionId} {intent : OrderIntent}
  {base : Int} {run : List Fill}

/-- What a recording adds to the fills, and what it does to the legs and to their trades. -/
structure Adds (tradeOf tradeOf' : PositionId → TradeId) (st st' : EngineState)
    (records : List FillRecord) (tradeId : TradeId) (positionId : PositionId) : Prop where
  fills : st'.bundle.fills = st.bundle.fills ++ records
  minted : st.ids.position.value ≤ st'.ids.position.value
  own : positionId.value < st'.ids.position.value
  trade : tradeOf' positionId = tradeId
  old : ∀ other : PositionId, other.value < st.ids.position.value → tradeOf' other = tradeOf other
  openLegs : ∀ (other : PositionId) (entry : LegMeta), st'.bundle.openLegs[other]? = some entry →
    other.value < st'.ids.position.value ∧ entry.tradeId = tradeOf' other

/-- A recording keeps one trade for every leg: a fresh leg takes the trade of its order, and any
other leg keeps its own. -/
theorem Recorded.adds (h : Recorded orderId held intent base run st.inventory
      st.ids.position.value st.bundle tradeId positionId st'.ids.position.value st'.bundle)
    (hi : Identified tradeOf st)
    (hheld : intent.action = .Open → ∀ p, held = some p →
      p.value < st.ids.position.value ∧ tradeId = tradeOf p) :
    ∃ records tradeOf', Tagged orderId tradeId positionId base run records ∧
      Adds tradeOf tradeOf' st st' records tradeId positionId := by
  generalize hnext : st'.ids.position.value = next at h
  generalize hbundle : st'.bundle = b at h
  cases h with
  | opened records entry action fresh minted trade tagged =>
    refine ⟨records, Function.update tradeOf positionId tradeId, tagged, ?_, ?_, ?_, ?_, ?_, ?_⟩
    · rw [hbundle]
    · omega
    · omega
    · exact Function.update_self ..
    · intro other hother
      exact Function.update_of_ne (fun heq => by subst heq; omega) ..
    · intro other found hfound
      rw [hbundle, OrderedMap.getElem?_insert] at hfound
      split_ifs at hfound with hother
      · cases hfound
        rw [hother, Function.update_self]
        exact ⟨by omega, trade⟩
      · obtain ⟨hlt, htrade⟩ := hi.openLegs other found hfound
        exact ⟨by omega, htrade.trans (Function.update_of_ne hother ..).symm⟩
  | extended records entry action found leg_some trade tagged =>
    obtain ⟨hlt, htrade⟩ := hheld action positionId found
    refine ⟨records, tradeOf, tagged, ?_, ?_, ?_, htrade.symm, fun _ _ => rfl, ?_⟩
    · rw [hbundle]
    · omega
    · omega
    · intro other found hfound
      rw [hbundle, OrderedMap.getElem?_insert] at hfound
      split_ifs at hfound with hother
      · cases hfound
        subst hother
        exact ⟨by omega, trade.trans htrade⟩
      · rw [hnext]
        exact hi.openLegs other found hfound
  | reduced records leg entry action leg_eq entry_eq trade part tagged =>
    obtain ⟨hlt, htrade⟩ := hi.openLegs positionId entry entry_eq
    refine ⟨records, tradeOf, tagged, ?_, ?_, ?_, htrade.symm.trans trade, fun _ _ => rfl, ?_⟩
    · rw [hbundle]
    · omega
    · omega
    · rw [hbundle, hnext]
      exact hi.openLegs
  | flattened records leg entry row first action leg_eq entry_eq trade all head tagged terminal =>
    obtain ⟨hlt, htrade⟩ := hi.openLegs positionId entry entry_eq
    refine ⟨records, tradeOf, tagged, ?_, ?_, ?_, htrade.symm.trans trade, fun _ _ => rfl, ?_⟩
    · rw [hbundle]
    · omega
    · omega
    · intro other found hfound
      rw [hbundle, OrderedMap.getElem?_erase] at hfound
      split_ifs at hfound
      rw [hnext]
      exact hi.openLegs other found hfound

theorem Recorded.leg {inventory : List OpenPosition} {next next' : Int}
    {b b' : BundleCollector}
    (h : Recorded orderId held intent base run inventory next b tradeId positionId next' b') :
    intent.action = .Open ∨ intent.action = .Close positionId := by
  cases h with
  | opened _ _ action => exact .inl action
  | extended _ _ action => exact .inl action
  | reduced _ _ _ action => exact .inr action
  | flattened _ _ _ _ _ action => exact .inr action

theorem Recorded.held_cases {inventory : List OpenPosition} {next next' : Int}
    {b b' : BundleCollector}
    (h : Recorded orderId held intent base run inventory next b tradeId positionId next' b')
    (hopen : intent.action = .Open) : held = none ∨ held = some positionId := by
  cases h with
  | opened _ _ _ fresh => exact .inl fresh
  | extended _ _ _ found => exact .inr found
  | reduced _ _ _ action => cases hopen.symm.trans action
  | flattened _ _ _ _ _ action => cases hopen.symm.trans action

/-- The entries after the fills of one order: what is left of it, and the others. -/
def RestsOf (orderId : OrderId) (intent : OrderIntent) (count : Int) (tradeId : TradeId)
    (held : Option PositionId) (pending pending' : Std.TreeMap OrderId PendingEntry) : Prop :=
  ∀ (other : OrderId) (entry : PendingEntry), pending'[other]? = some entry →
    (other = orderId ∧ Continues intent count tradeId held entry) ∨
      (other ≠ orderId ∧ pending[other]? = some entry)

theorem RestsOf.insert {pending : Std.TreeMap OrderId PendingEntry} {count : Int}
    {left : PendingEntry} (h : Continues intent count tradeId held left) :
    RestsOf orderId intent count tradeId held pending (pending.insert orderId left) := by
  intro other entry hentry
  rw [OrderedMap.getElem?_insert] at hentry
  split_ifs at hentry with hother
  · cases hentry
    exact .inl ⟨hother, h⟩
  · exact .inr ⟨hother, hentry⟩

theorem RestsOf.erase {pending : Std.TreeMap OrderId PendingEntry} {count : Int} :
    RestsOf orderId intent count tradeId held pending (pending.erase orderId) := by
  intro other entry hentry
  rw [OrderedMap.getElem?_erase] at hentry
  split_ifs at hentry with hother
  exact .inr ⟨hother, hentry⟩

theorem RestsOf.refl {pending : Std.TreeMap OrderId PendingEntry} {count : Int}
    (h : pending[orderId]? = none) :
    RestsOf orderId intent count tradeId held pending pending := by
  intro other entry hentry
  refine .inr ⟨fun hother => ?_, hentry⟩
  rw [hother, h] at hentry
  cases hentry

/-- The fills of one order keep the books identified. -/
theorem Identified.record {tradeOf' : PositionId → TradeId} {records : List FillRecord}
    (hi : Identified tradeOf st)
    (htagged : Tagged orderId tradeId positionId (recordsOf orderId st.bundle.fills).length run
      records)
    (hadds : Adds tradeOf tradeOf' st st' records tradeId positionId)
    (haction : intent.action = .Open ∨ intent.action = .Close positionId)
    (hsame : ∀ record ∈ st.bundle.fills, record.orderId = orderId → record.positionId = positionId)
    (hrests : RestsOf orderId intent ((recordsOf orderId st.bundle.fills).length + run.length)
      tradeId (some positionId) st.pending st'.pending) :
    Identified tradeOf' st' := by
  have hrecords : ∀ other, recordsOf other st'.bundle.fills =
      recordsOf other st.bundle.fills ++ recordsOf other records := fun other => by
    rw [hadds.fills, recordsOf_append]
  have hmem : ∀ record ∈ st'.bundle.fills, record ∈ st.bundle.fills ∨
      (record.orderId = orderId ∧ record.tradeId = tradeId ∧ record.positionId = positionId) := by
    rw [hadds.fills]
    exact List.forall_mem_append.2 ⟨fun _ h => .inl h, fun r h => .inr (htagged.tags r h)⟩
  refine ⟨?_, ?_, ?_, ?_, ?_, ?_, hadds.openLegs, ?_⟩
  · intro other
    rw [hrecords]
    refine (hi.numbered other).append ?_
    rw [zero_add]
    by_cases hother : other = orderId
    · rw [hother, htagged.recordsOf_self]
      exact htagged.numbered
    · rw [htagged.recordsOf_ne hother]
      exact .nil
  · intro other entry hentry
    rw [hrecords]
    rcases hrests other entry hentry with ⟨rfl, hleft⟩ | ⟨hother, hentry⟩
    · rw [hleft.count, htagged.recordsOf_self, List.length_append, htagged.length]
      push_cast
      rfl
    · rw [htagged.recordsOf_ne hother, List.append_nil]
      exact hi.counted other entry hentry
  · intro other entry hentry record hrecord ho
    rcases hrests other entry hentry with ⟨rfl, hleft⟩ | ⟨hother, hentry⟩
    · have hleg : entry.leg = some positionId := by
        unfold PendingEntry.leg
        rw [hleft.action]
        rcases haction with hopen | hclose
        · rw [hopen]
          exact hleft.held hopen
        · rw [hclose]
      rcases hmem record hrecord with hold | ⟨-, -, hp⟩
      · rw [hleg, hsame record hold ho]
      · rw [hleg, hp]
    · rcases hmem record hrecord with hold | ⟨ho', -⟩
      · exact hi.resting other entry hentry record hold ho
      · exact absurd (ho.symm.trans ho') hother
  · intro record hrecord other hother ho
    rcases hmem record hrecord with hr | ⟨hro, -, hrp⟩ <;>
      rcases hmem other hother with hr' | ⟨hro', -, hrp'⟩
    · exact hi.sameLeg record hr other hr' ho
    · exact (hsame record hr (ho.trans hro')).trans hrp'.symm
    · exact hrp.trans (hsame other hr' (ho.symm.trans hro)).symm
    · exact hrp.trans hrp'.symm
  · intro record hrecord
    rcases hmem record hrecord with hr | ⟨-, -, hp⟩
    · exact (hi.minted record hr).trans_le hadds.minted
    · exact hp ▸ hadds.own
  · intro record hrecord
    rcases hmem record hrecord with hr | ⟨-, ht, hp⟩
    · rw [hadds.old _ (hi.minted record hr)]
      exact hi.trade record hr
    · rw [ht, hp, hadds.trade]
  · intro other entry hentry hopen
    rcases hrests other entry hentry with ⟨rfl, hleft⟩ | ⟨hother, hentry⟩
    · have hintent := hleft.action.symm.trans hopen
      rw [hleft.trade hintent, hleft.held hintent]
      refine ⟨Option.some_ne_none _, ?_⟩
      rintro _ ⟨⟩
      exact ⟨hadds.own, congrArg some hadds.trade.symm⟩
    · obtain ⟨htrade, hheld⟩ := hi.pendingOpen other entry hentry hopen
      refine ⟨htrade, fun p hp => ?_⟩
      obtain ⟨hlt, hp⟩ := hheld p hp
      exact ⟨hlt.trans_le hadds.minted, hp.trans (congrArg some (hadds.old p hlt).symm)⟩

/-- Entries that start to rest, or stop, record nothing. -/
theorem Identified.rest (hi : Identified tradeOf st) (hbundle : st'.bundle = st.bundle)
    (hids : st'.ids.position = st.ids.position)
    (hnone : ∀ record ∈ st.bundle.fills, record.orderId ≠ orderId)
    (hrests : RestsOf orderId intent 0 tradeId none st.pending st'.pending) :
    Identified tradeOf st' := by
  have hempty : recordsOf orderId st.bundle.fills = [] :=
    List.filter_eq_nil_iff.2 fun record hrecord heq => hnone record hrecord (of_decide_eq_true heq)
  refine ⟨?_, ?_, ?_, ?_, ?_, ?_, ?_, ?_⟩
  · rw [hbundle]
    exact hi.numbered
  · intro other entry hentry
    rw [hbundle]
    rcases hrests other entry hentry with ⟨rfl, hleft⟩ | ⟨-, hentry⟩
    · rw [hleft.count, hempty]
      rfl
    · exact hi.counted other entry hentry
  · intro other entry hentry record hrecord ho
    rw [hbundle] at hrecord
    rcases hrests other entry hentry with ⟨rfl, -⟩ | ⟨-, hentry⟩
    · exact absurd ho (hnone record hrecord)
    · exact hi.resting other entry hentry record hrecord ho
  · rw [hbundle]
    exact hi.sameLeg
  · rw [hbundle, hids]
    exact hi.minted
  · rw [hbundle]
    exact hi.trade
  · rw [hbundle, hids]
    exact hi.openLegs
  · intro other entry hentry hopen
    rw [hids]
    rcases hrests other entry hentry with ⟨rfl, hleft⟩ | ⟨-, hentry⟩
    · have hintent := hleft.action.symm.trans hopen
      rw [hleft.trade hintent, hleft.held hintent]
      exact ⟨Option.some_ne_none _, nofun⟩
    · exact hi.pendingOpen other entry hentry hopen

end Step

section Events

variable {snapshot : ChainSnapshot} {reasons : CloseReasons} {s t : StepState} {ev : OrderEvent}
  {orderId : OrderId} {run : List Fill} {tradeOf : PositionId → TradeId}

theorem Recorded.fills {held : Option PositionId} {intent : OrderIntent} {base next next' : Int}
    {inventory : List OpenPosition} {b b' : BundleCollector} {tradeId : TradeId}
    {positionId : PositionId}
    (h : Recorded orderId held intent base run inventory next b tradeId positionId next' b') :
    ∃ records, Tagged orderId tradeId positionId base run records ∧
      b'.fills = b.fills ++ records := by
  cases h with
  | opened records _ _ _ _ _ tagged => exact ⟨records, tagged, rfl⟩
  | extended records _ _ _ _ _ tagged => exact ⟨records, tagged, rfl⟩
  | reduced records _ _ _ _ _ _ _ tagged => exact ⟨records, tagged, rfl⟩
  | flattened records _ _ _ _ _ _ _ _ _ _ tagged => exact ⟨records, tagged, rfl⟩

theorem CarriedStep.restsOf {entry : PendingEntry} {tradeId : TradeId} {positionId : PositionId}
    (h : CarriedStep orderId run s t entry tradeId positionId) :
    RestsOf orderId entry.pending.intent (entry.fillsSoFar.value + run.length) tradeId
      (some positionId) s.engine.pending t.engine.pending := by
  rcases h.rests with hrests | ⟨left, hrests, hleft⟩ <;> rw [hrests]
  · exact .erase
  · exact .insert hleft

theorem SubmittedStep.restsOf {intent : OrderIntent} {tradeId : TradeId}
    {held : Option PositionId} (h : SubmittedStep orderId intent run s t tradeId held)
    (hnone : s.engine.pending[orderId]? = none) :
    RestsOf orderId intent run.length tradeId held s.engine.pending t.engine.pending := by
  rcases h.rests with hrests | ⟨left, hrests, hleft⟩ <;> rw [hrests]
  · exact .refl hnone
  · exact .insert hleft

/-- An event makes no order known but the one it submits. -/
theorem applyEvent_known (h : applyEvent reasons snapshot s ev = .ok t)
    (hknown : Known t.engine orderId) :
    Known s.engine orderId ∨ ∃ sub, ev.submission? = some sub ∧ sub.1 = orderId := by
  have hsplit : ∀ {other : OrderId} {records : List FillRecord},
      t.engine.bundle.fills = s.engine.bundle.fills ++ records →
      (∀ record ∈ records, record.orderId = other) →
      (∀ o e, t.engine.pending[o]? = some e → o = other ∨ s.engine.pending[o]? = some e) →
      Known s.engine orderId ∨ orderId = other := by
    intro other records hfills htags hrests
    rcases hknown with ⟨record, hrecord, ho⟩ | hpending
    · rw [hfills] at hrecord
      rcases List.mem_append.1 hrecord with hold | hnew
      · exact .inl (.inl ⟨record, hold, ho⟩)
      · exact .inr (ho.symm.trans (htags record hnew))
    · obtain ⟨entry, hentry⟩ := Option.isSome_iff_exists.1 hpending
      rcases hrests orderId entry hentry with heq | hold
      · exact .inr heq
      · exact .inl (.inr (Option.isSome_iff_exists.2 ⟨entry, hold⟩))
  cases ev with
  | carried other run =>
    obtain ⟨entry, tradeId, positionId, hstep⟩ := carried_recorded h
    obtain ⟨records, htagged, hfills⟩ := hstep.recorded.fills
    rcases hsplit hfills (fun r hr => (htagged.tags r hr).1)
      (fun o e he => (hstep.restsOf o e he).imp And.left And.right) with hknown | rfl
    · exact .inl hknown
    · exact .inl (.inr (Option.isSome_iff_exists.2 ⟨entry, hstep.pending⟩))
  | withdrawn other =>
    cases h
    rcases hknown with hrecord | hpending
    · exact .inl (.inl hrecord)
    · refine .inl (.inr ?_)
      simp only [EngineState.withdraw, OrderedMap.getElem?_erase] at hpending
      split_ifs at hpending
      · cases hpending
      · exact hpending
  | submitted idx other intent run =>
    obtain ⟨tradeId, held, hstep⟩ := submitted_recorded h
    have hfills : ∃ records : List FillRecord,
        t.engine.bundle.fills = s.engine.bundle.fills ++ records ∧
          ∀ record ∈ records, record.orderId = other := by
      rcases hstep.recorded with ⟨-, -, hbundle, -⟩ | ⟨-, positionId, -, hrecorded⟩
      · exact ⟨[], by rw [hbundle, List.append_nil], List.forall_mem_nil _⟩
      · obtain ⟨records, htagged, hfills⟩ := hrecorded.fills
        exact ⟨records, hfills, fun r hr => (htagged.tags r hr).1⟩
    obtain ⟨records, hfills, htags⟩ := hfills
    have hrests : ∀ (o : OrderId) (e : PendingEntry), t.engine.pending[o]? = some e →
        o = other ∨ s.engine.pending[o]? = some e := by
      intro o e he
      rcases hstep.rests with hkept | ⟨left, hleft, -⟩
      · exact .inr (hkept ▸ he)
      · rw [hleft, OrderedMap.getElem?_insert] at he
        split_ifs at he with ho
        · exact .inl ho
        · exact .inr he
    rcases hsplit hfills htags hrests with hknown | rfl
    · exact .inl hknown
    · exact .inr ⟨_, rfl, rfl⟩

/-- One event keeps the books identified, if what it submits is new. -/
theorem Identified.step (hi : Identified tradeOf s.engine)
    (hfresh : ∀ sub, ev.submission? = some sub → ¬ Known s.engine sub.1)
    (h : applyEvent reasons snapshot s ev = .ok t) :
    ∃ tradeOf', Identified tradeOf' t.engine := by
  cases ev with
  | carried orderId run =>
    obtain ⟨entry, tradeId, positionId, hstep⟩ := carried_recorded h
    have hcount := hi.counted orderId entry hstep.pending
    have hrecorded := hstep.recorded
    have hrests := hstep.restsOf
    rw [hcount] at hrecorded hrests
    obtain ⟨records, tradeOf', htagged, hadds⟩ := hrecorded.adds hi fun hopen p hp => by
      obtain ⟨htrade, hheld⟩ := hi.pendingOpen orderId entry hstep.pending hopen
      obtain ⟨hlt, hp⟩ := hheld p hp
      have hown := (hstep.trade hopen).resolve_left htrade
      exact ⟨hlt, Option.some.inj (hown.symm.trans hp)⟩
    refine ⟨tradeOf', hi.record htagged hadds hrecorded.leg (fun record hrecord ho => ?_) hrests⟩
    have hleg := hi.resting orderId entry hstep.pending record hrecord ho
    unfold PendingEntry.leg at hleg
    rcases hrecorded.leg with hopen | hclose
    · rw [hopen] at hleg
      rcases hrecorded.held_cases hopen with hheld | hheld
      · cases hheld.symm.trans hleg
      · exact Option.some.inj (hleg.symm.trans hheld)
    · rw [hclose] at hleg
      exact (Option.some.inj hleg).symm
  | withdrawn orderId =>
    cases h
    have hkept : ∀ (o : OrderId) (e : PendingEntry),
        (s.engine.withdraw orderId).pending[o]? = some e → s.engine.pending[o]? = some e := by
      intro o e he
      simp only [EngineState.withdraw, OrderedMap.getElem?_erase] at he
      split_ifs at he
      exact he
    exact ⟨tradeOf, hi.numbered, fun o e he => hi.counted o e (hkept o e he),
      fun o e he => hi.resting o e (hkept o e he), hi.sameLeg, hi.minted, hi.trade, hi.openLegs,
      fun o e he => hi.pendingOpen o e (hkept o e he)⟩
  | submitted idx orderId intent run =>
    obtain ⟨tradeId, held, hstep⟩ := submitted_recorded h
    have hnew := hfresh _ rfl
    have hnone : s.engine.pending[orderId]? = none :=
      Option.not_isSome_iff_eq_none.1 fun hsome => hnew (.inr hsome)
    have hunrecorded : ∀ record ∈ s.engine.bundle.fills, record.orderId ≠ orderId :=
      fun record hrecord ho => hnew (.inl ⟨record, hrecord, ho⟩)
    have hrests := hstep.restsOf hnone
    rcases hstep.recorded with ⟨rfl, rfl, hbundle, hids⟩ | ⟨-, positionId, rfl, hrecorded⟩
    · exact ⟨tradeOf, hi.rest hbundle hids hunrecorded hrests⟩
    · have hempty : recordsOf orderId s.engine.bundle.fills = [] :=
        List.filter_eq_nil_iff.2 fun record hrecord heq =>
          hunrecorded record hrecord (of_decide_eq_true heq)
      obtain ⟨records, tradeOf', htagged, hadds⟩ := hrecorded.adds hi nofun
      have hfirst : Tagged orderId tradeId positionId
          (recordsOf orderId s.engine.bundle.fills).length run records := by
        rw [hempty]
        exact htagged
      refine ⟨tradeOf', hi.record hfirst hadds hrecorded.leg
        (fun record hrecord ho => absurd ho (hunrecorded record hrecord)) ?_⟩
      rw [hempty]
      simpa using hrests

end Events

section Trades

variable {snapshot : ChainSnapshot} {reasons : CloseReasons} {s t : StepState} {ev : OrderEvent}
  {orderId : OrderId} {tradeId : TradeId}

/-- What an opening order has recorded, and what it will, carries this trade. -/
def Traded (st : EngineState) (orderId : OrderId) (tradeId : TradeId) : Prop :=
  (∀ record ∈ st.bundle.fills, record.orderId = orderId → record.tradeId = tradeId) ∧
    ∀ entry : PendingEntry, st.pending[orderId]? = some entry → entry.tradeId = some tradeId

theorem not_known_traded {st : EngineState} (h : ¬ Known st orderId) (tradeId : TradeId) :
    Traded st orderId tradeId := by
  refine ⟨fun record hrecord ho => (h (.inl ⟨record, hrecord, ho⟩)).elim, fun entry hentry => ?_⟩
  exact (h (.inr (Option.isSome_iff_exists.2 ⟨entry, hentry⟩))).elim

/-- An event of another submission leaves an opening order its trade. -/
theorem Traded.step (htraded : Traded s.engine orderId tradeId)
    (hopen : ∀ entry : PendingEntry, s.engine.pending[orderId]? = some entry →
      entry.pending.intent.action = .Open)
    (hother : ∀ sub, ev.submission? = some sub → sub.1 ≠ orderId)
    (h : applyEvent reasons snapshot s ev = .ok t) : Traded t.engine orderId tradeId := by
  obtain ⟨hrecords, hpending⟩ := htraded
  cases ev with
  | carried other run =>
    obtain ⟨entry, found, positionId, hstep⟩ := carried_recorded h
    obtain ⟨records, htagged, hfills⟩ := hstep.recorded.fills
    have hown : orderId = other → found = tradeId := by
      rintro rfl
      have htrade := hpending entry hstep.pending
      rcases hstep.trade (hopen entry hstep.pending) with hnone | hsome
      · cases hnone.symm.trans htrade
      · exact Option.some.inj (hsome.symm.trans htrade)
    refine ⟨?_, fun e he => ?_⟩
    · rw [hfills]
      refine List.forall_mem_append.2 ⟨hrecords, fun record hrecord ho => ?_⟩
      obtain ⟨ho', ht, -⟩ := htagged.tags record hrecord
      exact ht.trans (hown (ho.symm.trans ho'))
    · rcases hstep.restsOf orderId e he with ⟨heq, hleft⟩ | ⟨-, he⟩
      · have haction := hopen entry (heq ▸ hstep.pending)
        rw [hleft.trade haction, hown heq]
      · exact hpending e he
  | withdrawn other =>
    cases h
    refine ⟨hrecords, fun e he => hpending e ?_⟩
    simp only [EngineState.withdraw, OrderedMap.getElem?_erase] at he
    split_ifs at he
    exact he
  | submitted idx other intent run =>
    have hne := hother _ rfl
    obtain ⟨found, held, hstep⟩ := submitted_recorded h
    refine ⟨?_, fun e he => hpending e ?_⟩
    · rcases hstep.recorded with ⟨-, -, hbundle, -⟩ | ⟨-, positionId, -, hrecorded⟩
      · rw [hbundle]
        exact hrecords
      · obtain ⟨records, htagged, hfills⟩ := hrecorded.fills
        rw [hfills]
        refine List.forall_mem_append.2 ⟨hrecords, fun record hrecord ho => ?_⟩
        exact absurd ((htagged.tags record hrecord).1.symm.trans ho) hne
    · rcases hstep.rests with hkept | ⟨left, hleft, -⟩
      · exact hkept ▸ he
      · rw [hleft, OrderedMap.getElem?_insert, if_neg (Ne.symm hne)] at he
        exact he

/-- A new opening order takes the trade of the step. -/
theorem SubmittedStep.traded {intent : OrderIntent} {run : List Fill} {held : Option PositionId}
    (hstep : SubmittedStep orderId intent run s t tradeId held) (hopen : intent.action = .Open)
    (hnew : ¬ Known s.engine orderId) : Traded t.engine orderId tradeId := by
  have hnone : s.engine.pending[orderId]? = none :=
    Option.not_isSome_iff_eq_none.1 fun hsome => hnew (.inr hsome)
  refine ⟨?_, fun e he => ?_⟩
  · rcases hstep.recorded with ⟨-, -, hbundle, -⟩ | ⟨-, positionId, -, hrecorded⟩
    · rw [hbundle]
      exact fun record hrecord ho => (hnew (.inl ⟨record, hrecord, ho⟩)).elim
    · obtain ⟨records, htagged, hfills⟩ := hrecorded.fills
      rw [hfills]
      exact List.forall_mem_append.2
        ⟨fun record hrecord ho => (hnew (.inl ⟨record, hrecord, ho⟩)).elim,
          fun record hrecord _ => (htagged.tags record hrecord).2.1⟩
  · rcases hstep.restsOf hnone orderId e he with ⟨-, hleft⟩ | ⟨hne, -⟩
    · exact hleft.trade hopen
    · exact absurd rfl hne

end Trades

section Calls

variable {X : Type} [ExecutionModel X] {log : List (Batch X)} {b : Batch X} {after : EngineState}

/-- The orders an event submits are new to the books it is applied to. -/
def Fresh (s : StepState) (ev : OrderEvent) : Prop :=
  ∀ sub, ev.submission? = some sub → ¬ Known s.engine sub.1

/-- Events that submit orders in increasing order, all above the known ones, submit new orders
throughout. -/
theorem along_fresh {snapshot : ChainSnapshot} {reasons : CloseReasons} {events : List OrderEvent}
    {s : StepState}
    (hsorted : (events.filterMap OrderEvent.submission?).Pairwise fun a c =>
      a.1.value < c.1.value)
    (hbelow : ∀ sub ∈ events.filterMap OrderEvent.submission?, ∀ orderId,
      Known s.engine orderId → orderId.value < sub.1.value) :
    Along (applyEvent reasons snapshot) Fresh s events := by
  induction events generalizing s with
  | nil => exact along_nil
  | cons ev events ih =>
    refine ⟨fun sub hsub hknown => ?_, fun m hm => ?_⟩
    · exact lt_irrefl _ (hbelow sub (List.mem_filterMap.2 ⟨ev, List.mem_cons_self, hsub⟩) _ hknown)
    · cases hev : ev.submission? with
      | none =>
        rw [List.filterMap_cons_none hev] at hsorted hbelow
        refine ih hsorted fun sub hsub orderId hknown => ?_
        rcases applyEvent_known hm hknown with hknown | ⟨_, hsub', -⟩
        · exact hbelow sub hsub orderId hknown
        · cases hev.symm.trans hsub'
      | some first =>
        rw [List.filterMap_cons_some hev] at hsorted hbelow
        obtain ⟨hfirst, hsorted⟩ := List.pairwise_cons.1 hsorted
        refine ih hsorted fun sub hsub orderId hknown => ?_
        rcases applyEvent_known hm hknown with hknown | ⟨_, hsub', rfl⟩
        · exact hbelow sub (List.mem_cons_of_mem _ hsub) orderId hknown
        · cases hev.symm.trans hsub'
          exact hfirst sub hsub

/-- The known orders were all issued. -/
def AllIssued (log : List (Batch X)) (st : EngineState) : Prop :=
  ∀ orderId, Known st orderId → ∃ intent, (orderId, intent) ∈ issued log

/-- The event rule of a call of any model: what it submits is new, and its registry entries go
back to issued orders. -/
theorem OrdersIssued.events (h : OrdersIssued log b.before) (hissued : AllIssued log b.before)
    (hexec : b.Executed after) (P : StepState → Prop)
    (hstep : ∀ (s t : StepState) ev, ev ∈ b.events → Fresh s ev →
      Sourced (issued (log ++ [b])) s.engine.pending → P s →
      applyEvent b.reasons b.snapshot s ev = .ok t → P t)
    (hstart : P ⟨b.start, none⟩) :
    ∃ trade, P ⟨after, trade⟩ ∧ Sourced (issued (log ++ [b])) after.pending := by
  obtain ⟨ids, hmint, hminted⟩ := hexec.minted
  obtain ⟨trade, hfold⟩ := hexec.applied
  obtain ⟨hinOrder, -⟩ := h.fresh hexec
  rw [issued_append] at hinOrder
  obtain ⟨-, hsorted, hacross⟩ := List.pairwise_append.1 hinOrder
  have hfresh : Along (applyEvent b.reasons b.snapshot) Fresh ⟨b.start, none⟩ b.events := by
    refine along_fresh ?_ ?_
    · rw [hexec.submissions]
      exact hsorted
    · rw [hexec.submissions, hminted]
      intro sub hsub orderId hknown
      obtain ⟨intent, hmem⟩ := hissued orderId hknown
      exact hacross _ hmem sub hsub
  have hsourced : Sourced (issued (log ++ [b])) b.start.pending := by
    rw [hminted, issued_append]
    exact h.sourced.mono (List.subset_append_left _ _)
  refine ⟨trade, foldlM_invariant_along
    (fun s : StepState => P s ∧ Sourced (issued (log ++ [b])) s.engine.pending) Fresh ?_
    ⟨hstart, hsourced⟩ hfresh hfold⟩
  rintro s ev t hev ⟨hP, hs⟩ hnew happly
  refine ⟨hstep s t ev hev hnew hs hP happly, ?_⟩
  refine hs.step (fun sub hsub => ?_) (applyEvent_registry happly).1
  rw [issued_append]
  exact List.mem_append_right _ (hexec.submission_mem hev hsub)

theorem Identified.congr {tradeOf : PositionId → TradeId} {st st' : EngineState}
    (hi : Identified tradeOf st) (hfills : st'.bundle.fills = st.bundle.fills)
    (hlegs : st'.bundle.openLegs = st.bundle.openLegs) (hpending : st'.pending = st.pending)
    (hids : st'.ids.position = st.ids.position) : Identified tradeOf st' := by
  constructor <;> simp only [hfills, hlegs, hpending, hids]
  exacts [hi.numbered, hi.counted, hi.resting, hi.sameLeg, hi.minted, hi.trade, hi.openLegs,
    hi.pendingOpen]

/-- Every call of the log gave one trade to all the orders it opened. -/
def SharedTrades (log : List (Batch X)) (st : EngineState) : Prop :=
  ∀ call ∈ log, ∃ tradeId, ∀ sub ∈ call.submissions, sub.2.action = .Open →
    Traded st sub.1 tradeId

/-- What identifies the fills of a run so far. -/
structure RunIdentified (log : List (Batch X)) (st : EngineState) : Prop
    extends OrdersIssued log st where
  known : AllIssued log st
  books : ∃ tradeOf, Identified tradeOf st
  trades : SharedTrades log st

/-- The opens of the call so far took the trade of the step. -/
def OwnTrade (b : Batch X) (s : StepState) : Prop :=
  ∀ sub ∈ b.submissions, sub.2.action = .Open → Known s.engine sub.1 →
    ∃ tradeId, s.stepTrade = some tradeId ∧ Traded s.engine sub.1 tradeId

theorem OwnTrade.step {s t : StepState} {ev : OrderEvent} (h : OwnTrade b s)
    (hexec : b.Executed after) (hinOrder : IssuedInOrder b.submissions) (hev : ev ∈ b.events)
    (hfresh : Fresh s ev)
    (hopen : ∀ sub ∈ b.submissions, sub.2.action = .Open → ∀ entry : PendingEntry,
      s.engine.pending[sub.1]? = some entry → entry.pending.intent.action = .Open)
    (happly : applyEvent b.reasons b.snapshot s ev = .ok t) : OwnTrade b t := by
  intro sub hsub haction hknown
  by_cases hmine : ∃ mine, ev.submission? = some mine ∧ mine.1 = sub.1
  · obtain ⟨mine, hmine, hid⟩ := hmine
    obtain rfl : mine = sub := by
      have hmem := hexec.submission_mem hev hmine
      rcases mine with ⟨orderId, intent⟩
      obtain rfl : orderId = sub.1 := hid
      exact Prod.ext rfl (hinOrder.unique hmem hsub)
    cases ev with
    | carried _ _ => cases hmine
    | withdrawn _ => cases hmine
    | submitted idx orderId intent run =>
      cases hmine
      obtain ⟨tradeId, held, hstep⟩ := submitted_recorded happly
      exact ⟨tradeId, (hstep.shared haction).2, hstep.traded haction (hfresh _ rfl)⟩
  · have hbefore : Known s.engine sub.1 :=
      (applyEvent_known happly hknown).resolve_right hmine
    obtain ⟨tradeId, htrade, htraded⟩ := h sub hsub haction hbefore
    refine ⟨tradeId, ?_, htraded.step (hopen sub hsub haction)
      (fun mine hm heq => hmine ⟨mine, hm, heq⟩) happly⟩
    cases ev with
    | carried orderId run =>
      obtain ⟨_, _, _, hstep⟩ := carried_recorded happly
      exact hstep.stepTrade.trans htrade
    | withdrawn orderId =>
      cases happly
      exact htrade
    | submitted idx orderId intent run =>
      obtain ⟨found, held, hstep⟩ := submitted_recorded happly
      by_cases hintent : intent.action = .Open
      · obtain ⟨hshared, hnow⟩ := hstep.shared hintent
        rcases hshared with hnone | hsome
        · cases hnone.symm.trans htrade
        · rw [hnow, ← hsome, htrade]
      · exact (hstep.stepTrade hintent).trans htrade

/-- One call keeps the fills identified. -/
theorem RunIdentified.call (h : RunIdentified log b.before) (hexec : b.Executed after) :
    RunIdentified (log ++ [b]) after := by
  obtain ⟨ids, hmint, hstart⟩ := hexec.minted
  obtain ⟨hposition, -⟩ := mintSubmitIds_eq_ok hmint
  obtain ⟨hinOrder, hminted⟩ := h.toOrdersIssued.fresh hexec
  have hsplit := hinOrder
  rw [issued_append] at hsplit
  obtain ⟨-, hown, hacross⟩ := List.pairwise_append.1 hsplit
  -- an entry of an opening order is an open: it is what remains of that order
  have hopen : ∀ (st : EngineState), Sourced (issued (log ++ [b])) st.pending →
      ∀ sub ∈ issued (log ++ [b]), sub.2.action = .Open → ∀ entry : PendingEntry,
        st.pending[sub.1]? = some entry → entry.pending.intent.action = .Open := by
    intro st hs sub hsub haction entry hentry
    obtain ⟨-, intent, hmem, hremains⟩ := hs sub.1 entry hentry
    rw [hremains, ← hinOrder.unique hsub hmem]
    exact haction
  have hmem : ∀ call ∈ log ++ [b], ∀ sub ∈ call.submissions, sub ∈ issued (log ++ [b]) :=
    fun call hcall sub hsub => List.mem_flatMap.2 ⟨call, hcall, hsub⟩
  suffices hrun : ∃ trade, ((∃ tradeOf, Identified tradeOf after) ∧
      AllIssued (log ++ [b]) after ∧ SharedTrades log after ∧ OwnTrade b ⟨after, trade⟩) ∧
      Sourced (issued (log ++ [b])) after.pending by
    obtain ⟨trade, ⟨hbooks, hissued, hold, hnew⟩, hsourced⟩ := hrun
    refine ⟨⟨hinOrder, hminted, hsourced⟩, hissued, hbooks, ?_⟩
    refine List.forall_mem_append.2 ⟨hold, List.forall_mem_singleton.2 ?_⟩
    refine ⟨trade.getD ⟨after.ids.trade⟩, fun sub hsub haction => ?_⟩
    by_cases hknown : Known after sub.1
    · obtain ⟨tradeId, htrade, htraded⟩ := hnew sub hsub haction hknown
      rw [show trade = some tradeId from htrade]
      exact htraded
    · exact not_known_traded hknown _
  refine h.toOrdersIssued.events h.known hexec
    (fun s => (∃ tradeOf, Identified tradeOf s.engine) ∧ AllIssued (log ++ [b]) s.engine ∧
      SharedTrades log s.engine ∧ OwnTrade b s) ?_ ?_
  · rintro s t ev hev hfresh hs ⟨⟨tradeOf, hi⟩, hall, hshared, hstep⟩ happly
    refine ⟨hi.step hfresh happly, fun orderId hknown => ?_, fun call hcall => ?_, ?_⟩
    · rcases applyEvent_known happly hknown with hknown | ⟨sub, hsub, rfl⟩
      · exact hall orderId hknown
      · exact ⟨sub.2, hmem b (by simp) sub (hexec.submission_mem hev hsub)⟩
    · obtain ⟨tradeId, htraded⟩ := hshared call hcall
      refine ⟨tradeId, fun sub hsub haction => (htraded sub hsub haction).step
        (hopen _ hs sub (hmem call (List.mem_append_left _ hcall) sub hsub) haction)
        (fun mine hmine heq => ?_) happly⟩
      have hlt := hacross sub (List.mem_flatMap.2 ⟨call, hcall, hsub⟩) mine
        (hexec.submission_mem hev hmine)
      rw [heq] at hlt
      exact lt_irrefl _ hlt
    · exact hstep.step hexec hown hev hfresh
        (fun sub hsub => hopen _ hs sub (hmem b (by simp) sub hsub)) happly
  · obtain ⟨tradeOf, hi⟩ := h.books
    have hsame : ∀ orderId, Known b.start orderId → Known b.before orderId := by
      rw [hstart]
      exact fun _ hknown => hknown
    refine ⟨⟨tradeOf, ?_⟩, fun orderId hknown => ?_, ?_, fun sub hsub _ hknown => ?_⟩
    · rw [hstart]
      exact hi.congr rfl rfl rfl hposition
    · obtain ⟨intent, hissued⟩ := h.known orderId (hsame orderId hknown)
      exact ⟨intent, by rw [issued_append]; exact List.mem_append_left _ hissued⟩
    · rw [hstart]
      exact h.trades
    · obtain ⟨intent, hissued⟩ := h.known sub.1 (hsame sub.1 hknown)
      exact absurd (hacross _ hissued sub hsub) (lt_irrefl _)

end Calls

section Runs

variable {S X R : Type} [ExecutionModel X] [Strategy S R] [SeedableRng R] {r : Setup S X} {n : Nat}
  {log : List (Batch X)} {s : RunState S X R}

/-- The record is of an order the call opened. -/
def OpenedBy (call : Batch X) (record : FillRecord) : Prop :=
  ∃ intent : OrderIntent, (record.orderId, intent) ∈ call.submissions ∧ intent.action = .Open

/-- What identifies a recorded fill. -/
structure FillIdentity (log : List (Batch X)) (records : List FillRecord) : Prop where
  unique : records.Pairwise fun a b =>
    ¬ (a.fill.step = b.fill.step ∧ a.orderId = b.orderId ∧ a.fillSeq = b.fillSeq)
  numbered : ∀ orderId, (recordsOf orderId records).map (fun record => record.fillSeq.value) =
    (List.range (recordsOf orderId records).length).map fun k : Nat => (k : Int)
  order : ∀ a ∈ records, ∀ b ∈ records, a.orderId = b.orderId →
    a.positionId = b.positionId ∧ a.tradeId = b.tradeId
  trade : ∀ call ∈ log, ∀ a ∈ records, ∀ b ∈ records, OpenedBy call a → OpenedBy call b →
    a.tradeId = b.tradeId

omit [ExecutionModel X] in
theorem RunIdentified.identity {st : EngineState} (h : RunIdentified log st) :
    FillIdentity log st.bundle.fills := by
  obtain ⟨tradeOf, hi⟩ := h.books
  refine ⟨?_, fun orderId => ?_, fun a ha b hb ho => ?_, fun call hcall a ha b hb hopened hopened' => ?_⟩
  · have hstrict := List.pairwise_of_filter FillRecord.orderId fun orderId =>
      (hi.numbered orderId).strict
    refine hstrict.imp fun hlt heq => ?_
    have hseq := hlt heq.2.1
    rw [heq.2.2] at hseq
    exact lt_irrefl _ hseq
  · simpa using (hi.numbered orderId).map_eq
  · have hleg := hi.sameLeg a ha b hb ho
    exact ⟨hleg, by rw [hi.trade a ha, hi.trade b hb, hleg]⟩
  · obtain ⟨tradeId, htraded⟩ := h.trades call hcall
    obtain ⟨intent, hmem, hopen⟩ := hopened
    obtain ⟨intent', hmem', hopen'⟩ := hopened'
    exact ((htraded _ hmem hopen).1 a ha rfl).trans ((htraded _ hmem' hopen').1 b hb rfl).symm

omit [ExecutionModel X] in
theorem RunIdentified.start (initial : Cents) :
    RunIdentified ([] : List (Batch X)) (.new initial) := by
  have hnone : ∀ orderId, ¬ Known (.new initial) orderId := by
    rintro orderId (⟨record, hrecord, -⟩ | hpending)
    · simp [EngineState.new, BundleCollector.empty] at hrecord
    · simp [EngineState.new] at hpending
  have hpending : ∀ (orderId : OrderId) (entry : PendingEntry),
      (EngineState.new initial).pending[orderId]? ≠ some entry := by
    simp [EngineState.new]
  refine ⟨⟨.nil, List.forall_mem_nil _, fun _ _ he => (hpending _ _ he).elim⟩,
    fun orderId hknown => (hnone orderId hknown).elim, ⟨fun _ => ⟨⟨1, by decide⟩⟩, ?_⟩,
    List.forall_mem_nil _⟩
  refine ⟨fun _ => .nil, fun _ _ he => (hpending _ _ he).elim, fun _ _ he => (hpending _ _ he).elim,
    List.forall_mem_nil _, List.forall_mem_nil _, List.forall_mem_nil _, fun p entry hentry => ?_,
    fun _ _ he => (hpending _ _ he).elim⟩
  simp [EngineState.new, BundleCollector.empty] at hentry

omit [ExecutionModel X] in
theorem RunIdentified.settle {st st' : EngineState} {snapshot : ChainSnapshot} {isLast : Bool}
    {point : EquityPoint} (hinv : RunIdentified log st)
    (hsettled : st.Settled snapshot isLast point st') : RunIdentified log st' := by
  obtain ⟨rows, -, hbundle⟩ := BundleCollector.collectStep_eq_ok hsettled.bundle
  have hfills : st'.bundle.fills = st.bundle.fills := by rw [hbundle]
  have hlegs : st'.bundle.openLegs = st.bundle.openLegs := by rw [hbundle]
  have hpending : st'.pending = st.pending := by rw [hsettled.books]
  have hids : st'.ids = st.ids := by rw [hsettled.books]
  have hknown : ∀ orderId, Known st' orderId → Known st orderId := by
    unfold Known
    rw [hfills, hpending]
    exact fun _ h => h
  obtain ⟨tradeOf, hi⟩ := hinv.books
  refine ⟨⟨hinv.inOrder, by rw [hids]; exact hinv.minted, by rw [hpending]; exact hinv.sourced⟩,
    fun orderId hk => hinv.known orderId (hknown orderId hk),
    ⟨tradeOf, hi.congr hfills hlegs hpending (by rw [hids])⟩, fun call hcall => ?_⟩
  obtain ⟨tradeId, htraded⟩ := hinv.trades call hcall
  refine ⟨tradeId, fun sub hsub hopen => ?_⟩
  have hsub := htraded sub hsub hopen
  unfold Traded at hsub ⊢
  rw [hfills, hpending]
  exact hsub

/-- Fill identity over whole runs: whatever the fill model, the recorded fills of every run are
numbered by order without a gap, an order has one leg and one trade, and the opens of one call
share a trade, also when they first fill later. -/
theorem fills_identified (h : r.play n = .ok (log, s)) :
    FillIdentity log s.engine.bundle.fills :=
  RunIdentified.identity (r.play_invariant (fun log _ st => RunIdentified log st)
    (fun initial _ => .start initial) (fun _ _ _ hinv hexec _ => hinv.call hexec)
    (fun _ _ _ _ _ _ _ hinv hsettled => hinv.settle hsettled) h)

end Runs

open SmallMarket OrderBook in
/-- The resting buy of the dip first fills in a later step than the buy beside it. -/
theorem fills_identified_dip : ∃ log s,
    (Setup.realistic (ReferenceBook ObOrderId) (config .Realistic) dipFeed
      (⟨restAndTake, []⟩ : Script)).play 3 = .ok (log, s) ∧
      FillIdentity log s.engine.bundle.fills := by
  obtain ⟨⟨log, s⟩, h⟩ := exists_eq_ok (r := (Setup.realistic (ReferenceBook ObOrderId)
    (config .Realistic) dipFeed (⟨restAndTake, []⟩ : Script)).play 3) (by decide +kernel)
  exact ⟨log, s, h, fills_identified h⟩

end IronCondor
