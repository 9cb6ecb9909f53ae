import IronCondor.Engine.Modes
import IronCondor.Engine.Recorded

/-! # The rows of a leg

Open rows are written by the settlement, one for every open leg; the terminal row is written
where a fill run takes the last contract. `Lived` is what the two together make of one leg: open
rows from the step of its first fill, and one terminal row at the step of its last. -/
namespace IronCondor

open Checked ExceptRun OrderBook

/-- The records on one leg, in the order they were recorded. -/
def fillsOn (positionId : PositionId) (records : List FillRecord) : List FillRecord :=
  records.filter fun record => record.positionId = positionId

/-- The rows of one leg, in table order. -/
def rowsOf (positionId : PositionId) (rows : List PositionSnapshot) : List PositionSnapshot :=
  rows.filter fun row => row.positionId = positionId

/-- The step of a row, and whether it is a terminal one. -/
def rowKind (row : PositionSnapshot) : Int × Bool := (row.step.value, row.exitReason.isSome)

/-- Open rows at every step from `first` to before `stop`. -/
def openSpan (first stop : Nat) : List (Int × Bool) :=
  (List.range' first (stop - first)).map fun k : Nat => ((k : Int), false)

def stepOf (record : FillRecord) : Int := record.fill.step.value

/-- The life of a leg from its fills and its rows, at the step `now`, when the steps before
`next` have their open rows. -/
inductive Life (now next : Nat) (fills : List FillRecord) (rows : List (Int × Bool)) :
    Bool → Prop
  | unborn (no_fill : fills = []) (no_row : rows = []) : Life now next fills rows false
  | opened (first : Nat) (le_now : first ≤ now) (head : fills.head?.map stepOf = some (first : Int))
      (rows_eq : rows = openSpan first next) : Life now next fills rows true
  | closed (first last : Nat) (le : first ≤ last) (le_now : last ≤ now)
      (head : fills.head?.map stepOf = some (first : Int))
      (final : fills.getLast?.map stepOf = some (last : Int))
      (rows_eq : rows = openSpan first last ++ [((last : Int), true)]) :
      Life now next fills rows false

/-- Every leg lives by its fills, and the open rows of the final step are the ones marked. -/
structure Lived (now next : Nat) (final : StepIndex) (st : EngineState) : Prop where
  life : ∀ positionId : PositionId, Life now next (fillsOn positionId st.bundle.fills)
    ((rowsOf positionId st.bundle.positions).map rowKind)
    (st.bundle.openLegs[positionId]?).isSome
  minted : ∀ record ∈ st.bundle.fills, record.positionId.value < st.ids.position.value
  ends : ∀ row ∈ st.bundle.positions,
    row.openAtEnd = true ↔ row.exitReason = none ∧ row.step = final

section Spans

variable {first stop : Nat}

@[simp] theorem openSpan_self (first : Nat) : openSpan first first = [] := by
  simp [openSpan]

theorem openSpan_succ (h : first ≤ stop) :
    openSpan first (stop + 1) = openSpan first stop ++ [((stop : Int), false)] := by
  have hlength : stop + 1 - first = stop - first + 1 := by omega
  have hlast : first + (stop - first) = stop := by omega
  rw [openSpan, hlength, List.range'_1_concat, List.map_append, List.map_singleton, hlast]
  rfl

theorem mem_openSpan {kind : Int × Bool} : kind ∈ openSpan first stop ↔
    ∃ k : Nat, first ≤ k ∧ k < stop ∧ kind = ((k : Int), false) := by
  simp only [openSpan, List.mem_map, List.mem_range'_1]
  constructor
  · rintro ⟨k, ⟨hle, hlt⟩, rfl⟩
    exact ⟨k, hle, by omega, rfl⟩
  · rintro ⟨k, hle, hlt, rfl⟩
    exact ⟨k, ⟨hle, by omega⟩, rfl⟩

theorem openSpan_strict (first stop : Nat) :
    (openSpan first stop).Pairwise fun a b => a.1 < b.1 := by
  unfold openSpan
  rw [List.pairwise_map]
  exact (List.pairwise_lt_range' 1).imp fun hlt => Int.ofNat_lt.2 hlt

/-- A leg has at most one row a step. -/
theorem Life.strict {now next : Nat} {fills : List FillRecord} {rows : List (Int × Bool)}
    {live : Bool} (h : Life now next fills rows live) : rows.Pairwise fun a b => a.1 < b.1 := by
  cases h with
  | unborn _ no_row => exact no_row ▸ .nil
  | opened first _ _ rows_eq => exact rows_eq ▸ openSpan_strict first next
  | closed first last _ _ _ _ rows_eq =>
    rw [rows_eq]
    refine List.pairwise_append.2 ⟨openSpan_strict first last, List.pairwise_singleton _ _, ?_⟩
    rintro a ha b hb
    obtain ⟨k, -, hlt, rfl⟩ := mem_openSpan.1 ha
    rw [List.mem_singleton.1 hb]
    exact Int.ofNat_lt.2 hlt

end Spans

section Step

variable {orderId : OrderId} {tradeId : TradeId} {positionId : PositionId} {base : Int}
  {run : List Fill} {records : List FillRecord} {held : Option PositionId} {intent : OrderIntent}
  {n : Nat} {final : StepIndex} {st st' : EngineState}

theorem fillsOn_append (positionId : PositionId) (records records' : List FillRecord) :
    fillsOn positionId (records ++ records') =
      fillsOn positionId records ++ fillsOn positionId records' :=
  List.filter_append ..

theorem Tagged.fillsOn_self (h : Tagged orderId tradeId positionId base run records) :
    fillsOn positionId records = records :=
  List.filter_eq_self.2 fun record hrecord => decide_eq_true (h.tags record hrecord).2.2

theorem Tagged.fillsOn_ne (h : Tagged orderId tradeId positionId base run records)
    {other : PositionId} (hne : other ≠ positionId) : fillsOn other records = [] :=
  List.filter_eq_nil_iff.2 fun record hrecord heq =>
    hne ((of_decide_eq_true heq).symm.trans (h.tags record hrecord).2.2)

/-- The records of a run stamped with one step begin and end with it. -/
theorem Tagged.ends (h : Tagged orderId tradeId positionId base run records) (hrun : run ≠ [])
    (hstamped : ∀ fill ∈ run, fill.step.value = (n : Int)) :
    records.head?.map stepOf = some (n : Int) ∧ records.getLast?.map stepOf = some (n : Int) := by
  have hall : ∀ record ∈ records, stepOf record = n := fun record hrecord =>
    hstamped record.fill (h.fills ▸ List.mem_map_of_mem hrecord)
  have hrecords : records ≠ [] := by
    rintro rfl
    exact hrun h.fills.symm
  refine ⟨?_, ?_⟩
  · rw [List.head?_eq_some_head hrecords, Option.map_some, hall _ (List.head_mem hrecords)]
  · rw [List.getLast?_eq_some_getLast hrecords, Option.map_some,
      hall _ (List.getLast_mem hrecords)]

theorem head?_append_of_map {first : Int} {records records' : List FillRecord}
    (h : records.head?.map stepOf = some first) :
    (records ++ records').head?.map stepOf = some first := by
  cases records with
  | nil => cases h
  | cons record records => exact h

theorem Life.later {now now' next : Nat} {fills : List FillRecord} {rows : List (Int × Bool)}
    {live : Bool} (h : Life now next fills rows live) (hle : now ≤ now') :
    Life now' next fills rows live := by
  cases h with
  | unborn no_fill no_row => exact .unborn no_fill no_row
  | opened first le_now head rows_eq => exact .opened first (le_now.trans hle) head rows_eq
  | closed first last le le_now head final rows_eq =>
    exact .closed first last le (le_now.trans hle) head final rows_eq

/-- An open leg with more fills is an open leg. -/
theorem Life.grow {now next : Nat} {fills : List FillRecord} {rows : List (Int × Bool)}
    (h : Life now next fills rows true) (records : List FillRecord) :
    Life now next (fills ++ records) rows true := by
  cases h with
  | opened first le_now head rows_eq =>
    exact .opened first le_now (head?_append_of_map head) rows_eq

/-- An open leg has a fill, so its records name a leg that was minted. -/
theorem Lived.minted_append {now next : Nat} (hl : Lived now next final st)
    (h : Tagged orderId tradeId positionId base run records)
    (hlive : (st.bundle.openLegs[positionId]?).isSome = true) :
    ∀ record ∈ st.bundle.fills ++ records, record.positionId.value < st.ids.position.value := by
  refine List.forall_mem_append.2 ⟨hl.minted, fun record hrecord => ?_⟩
  rw [(h.tags record hrecord).2.2]
  have hlife := hl.life positionId
  rw [hlive] at hlife
  cases hlife with
  | opened first _ head =>
    obtain ⟨found, hfound, -⟩ := Option.map_eq_some_iff.1 head
    obtain ⟨hmem, hp⟩ := List.mem_filter.1 (List.mem_of_mem_head? hfound)
    rw [← of_decide_eq_true hp]
    exact hl.minted found hmem

/-- The fills of one order keep every leg alive in its rows. -/
theorem Recorded.lived (h : Recorded orderId held intent base run st.inventory
      st.ids.position.value st.bundle tradeId positionId st'.ids.position.value st'.bundle)
    (hl : Lived n n final st) (hrun : run ≠ [])
    (hstamped : ∀ fill ∈ run, fill.step.value = (n : Int))
    (hlegs : (findLeg st.inventory positionId).isSome →
      (st.bundle.openLegs[positionId]?).isSome) : Lived n n final st' := by
  generalize hnext : st'.ids.position.value = next at h
  generalize hbundle : st'.bundle = b at h
  cases h with
  | opened records entry action fresh minted trade tagged =>
    obtain ⟨hfirst, -⟩ := tagged.ends hrun hstamped
    refine ⟨fun other => ?_, ?_, hbundle ▸ hl.ends⟩
    · have hlife := hl.life other
      rw [hbundle, fillsOn_append, OrderedMap.getElem?_insert]
      by_cases hne : other = positionId
      · have hnone : fillsOn positionId st.bundle.fills = [] :=
          List.filter_eq_nil_iff.2 fun record hrecord heq => by
            have hlt := hl.minted record hrecord
            rw [of_decide_eq_true heq, minted] at hlt
            exact lt_irrefl _ hlt
        rw [hne, hnone] at hlife
        rw [hne, if_pos rfl, hnone, tagged.fillsOn_self, List.nil_append]
        generalize (st.bundle.openLegs[positionId]?).isSome = live at hlife
        cases hlife with
        | unborn _ no_row => exact .opened n le_rfl hfirst (no_row.trans (openSpan_self n).symm)
        | opened _ _ head => cases head
        | closed _ _ _ _ head => cases head
      · rw [if_neg hne, tagged.fillsOn_ne hne, List.append_nil]
        exact hlife
    · rw [hbundle, hnext]
      refine List.forall_mem_append.2 ⟨fun record hrecord => ?_, fun record hrecord => ?_⟩
      · have := hl.minted record hrecord
        omega
      · rw [(tagged.tags record hrecord).2.2, minted]
        omega
  | extended records entry action found leg_some trade tagged =>
    refine ⟨fun other => ?_, ?_, hbundle ▸ hl.ends⟩
    · have hlife := hl.life other
      rw [hbundle, fillsOn_append, OrderedMap.getElem?_insert]
      by_cases hne : other = positionId
      · rw [hne, hlegs leg_some] at hlife
        rw [hne, if_pos rfl, tagged.fillsOn_self]
        exact hlife.grow records
      · rw [if_neg hne, tagged.fillsOn_ne hne, List.append_nil]
        exact hlife
    · rw [hbundle, hnext]
      exact hl.minted_append tagged (hlegs leg_some)
  | reduced records leg entry action leg_eq entry_eq trade part tagged =>
    have hlive : (st.bundle.openLegs[positionId]?).isSome = true := by rw [entry_eq]; rfl
    refine ⟨fun other => ?_, ?_, hbundle ▸ hl.ends⟩
    · have hlife := hl.life other
      rw [hbundle, fillsOn_append]
      by_cases hne : other = positionId
      · rw [hne, hlive] at hlife ⊢
        rw [tagged.fillsOn_self]
        exact hlife.grow records
      · rw [tagged.fillsOn_ne hne, List.append_nil]
        exact hlife
    · rw [hbundle, hnext]
      exact hl.minted_append tagged hlive
  | flattened records leg entry row first action leg_eq entry_eq trade all head tagged terminal =>
    obtain ⟨-, hlast⟩ := tagged.ends hrun hstamped
    have hlive : (st.bundle.openLegs[positionId]?).isSome = true := by rw [entry_eq]; rfl
    have hrow : rowKind row = ((n : Int), true) := by
      rw [rowKind, terminal.step, hstamped first (List.mem_of_mem_head? head),
        Option.isSome_iff_ne_none.2 terminal.closed]
    have hrowsOf : ∀ other, rowsOf other (st.bundle.positions ++ [row]) =
        rowsOf other st.bundle.positions ++ if other = positionId then [row] else [] := by
      intro other
      rw [rowsOf, List.filter_append, rowsOf, List.filter_singleton, terminal.positionId]
      by_cases hne : other = positionId
      · simp [hne]
      · simp [hne, Ne.symm hne]
    refine ⟨fun other => ?_, ?_, ?_⟩
    · have hlife := hl.life other
      rw [hbundle, fillsOn_append, OrderedMap.getElem?_erase, hrowsOf]
      by_cases hne : other = positionId
      · rw [hne, hlive] at hlife
        rw [hne, if_pos rfl, if_pos rfl, tagged.fillsOn_self, List.map_append, List.map_singleton,
          hrow]
        cases hlife with
        | opened opening le_now head rows_eq =>
          refine .closed opening n le_now le_rfl (head?_append_of_map head) ?_ (by rw [rows_eq])
          rw [List.getLast?_append_of_ne_nil]
          · exact hlast
          · rintro rfl
            exact hrun tagged.fills.symm
      · rw [if_neg hne, if_neg hne, tagged.fillsOn_ne hne, List.append_nil, List.append_nil]
        exact hlife
    · rw [hbundle, hnext]
      exact hl.minted_append tagged hlive
    · rw [hbundle]
      refine List.forall_mem_append.2 ⟨hl.ends, List.forall_mem_singleton.2 ?_⟩
      rw [terminal.openAtEnd]
      exact ⟨nofun, fun h => absurd h.1 terminal.closed⟩

end Step

section Moves

variable {n now now' next : Nat} {final : StepIndex} {st st' : EngineState}

/-- What touches neither the collector nor the leg counter changes no life. -/
theorem Lived.congr (h : Lived now next final st) (hbundle : st'.bundle = st.bundle)
    (hids : st'.ids.position = st.ids.position) : Lived now next final st' := by
  constructor <;> simp only [hbundle, hids]
  exacts [h.life, h.minted, h.ends]

theorem Lived.later (h : Lived now next final st) (hle : now ≤ now') : Lived now' next final st where
  life positionId := (h.life positionId).later hle
  minted := h.minted
  ends := h.ends

/-- One event keeps every leg alive in its rows. -/
theorem Lived.step {snapshot : ChainSnapshot} {reasons : CloseReasons} {s t : StepState}
    {ev : OrderEvent} (hl : Lived n n final s.engine) (hlinked : Linked s.engine)
    (hstamped : ∀ fill ∈ ev.fills, fill.step.value = (n : Int))
    (h : applyEvent reasons snapshot s ev = .ok t) : Lived n n final t.engine := by
  have hlegs : ∀ positionId, (findLeg s.engine.inventory positionId).isSome →
      (s.engine.bundle.openLegs[positionId]?).isSome := fun positionId hsome => by
    rw [hlinked.openLegs_isSome]
    exact hsome
  cases ev with
  | carried orderId run =>
    obtain ⟨entry, tradeId, positionId, hstep⟩ := carried_recorded h
    exact hstep.recorded.lived hl hstep.nonempty hstamped (hlegs positionId)
  | withdrawn orderId =>
    cases h
    exact hl.congr rfl rfl
  | submitted idx orderId intent run =>
    obtain ⟨tradeId, held, hstep⟩ := submitted_recorded h
    rcases hstep.recorded with ⟨-, -, hbundle, hids⟩ | ⟨hrun, positionId, -, hrecorded⟩
    · exact hl.congr hbundle hids
    · exact hrecorded.lived hl hrun hstamped (hlegs positionId)

/-- A settlement writes one open row for every open leg. -/
theorem settled_kinds {snapshot : ChainSnapshot} {isLast : Bool} {point : EquityPoint}
    (hlinked : Linked st) (h : st.Settled snapshot isLast point st') :
    ∃ rows, st'.bundle = { st.bundle with positions := st.bundle.positions ++ rows } ∧
      (∀ row ∈ rows, row.step = snapshot.step ∧ row.exitReason = none ∧ row.openAtEnd = isLast) ∧
      ∀ positionId, (rowsOf positionId rows).map rowKind =
        if (st.bundle.openLegs[positionId]?).isSome then [(snapshot.step.value, false)] else [] := by
  obtain ⟨marked, hsettle, -, -⟩ := h.ledger
  obtain ⟨-, hmarks, -⟩ := Ledger.settle_eq_ok hsettle
  obtain ⟨rows, hrows, hbundle⟩ := BundleCollector.collectStep_eq_ok h.bundle
  have hall := Pointwise.forall_left hrows fun row mark hrow =>
    (⟨hrow.step_eq, hrow.exitReason, hrow.openAtEnd⟩ :
      row.step = snapshot.step ∧ row.exitReason = none ∧ row.openAtEnd = isLast)
  refine ⟨rows, hbundle, hall, fun positionId => ?_⟩
  have hids : rows.map PositionSnapshot.positionId = legIds st.inventory :=
    (Pointwise.map_eq hrows fun _ _ _ hrow => hrow.positionId).trans
      (Pointwise.map_eq hmarks fun _ _ _ hmark => hmark.positionId)
  have hkinds : (rowsOf positionId rows).map rowKind =
      List.replicate (rowsOf positionId rows).length (snapshot.step.value, false) := by
    refine List.eq_replicate_iff.2 ⟨List.length_map .., fun kind hkind => ?_⟩
    obtain ⟨row, hrow, rfl⟩ := List.mem_map.1 hkind
    obtain ⟨hstep, hnone, -⟩ := hall row (List.mem_filter.1 hrow).1
    rw [rowKind, hstep, hnone]
    rfl
  have hcount : (rowsOf positionId rows).length = (legIds st.inventory).count positionId := by
    rw [← hids, List.count_eq_countP, List.countP_map, List.countP_eq_length_filter]
    rfl
  have hmem : (st.bundle.openLegs[positionId]?).isSome ↔ positionId ∈ legIds st.inventory := by
    rw [hlinked.openLegs_isSome]
    exact findLeg_isSome.symm
  rw [hkinds, hcount]
  split_ifs with hlive
  · rw [List.count_eq_one_of_mem hlinked.nodup (hmem.1 hlive)]
    rfl
  · rw [List.count_eq_zero_of_not_mem fun hin => hlive (hmem.2 hin)]
    rfl

/-- One settlement gives every open leg its row of the step. -/
theorem Lived.settle {snapshot : ChainSnapshot} {isLast : Bool} {point : EquityPoint}
    (hl : Lived n n final st) (hlinked : Linked st) (hstep : snapshot.step.value = (n : Int))
    (hlast : isLast = decide (snapshot.step = final)) (h : st.Settled snapshot isLast point st') :
    Lived n (n + 1) final st' := by
  obtain ⟨rows, hbundle, hall, hkinds⟩ := settled_kinds hlinked h
  have hids : st'.ids = st.ids := by rw [h.books]
  have hrowsOf : ∀ positionId, (rowsOf positionId st'.bundle.positions).map rowKind =
      (rowsOf positionId st.bundle.positions).map rowKind ++
        if (st.bundle.openLegs[positionId]?).isSome then [((n : Int), false)] else [] := by
    intro positionId
    rw [hbundle, rowsOf, List.filter_append, List.map_append, ← hstep, ← hkinds]
    rfl
  refine ⟨fun positionId => ?_, ?_, ?_⟩
  · have hlife := hl.life positionId
    rw [hrowsOf, hbundle]
    cases hlive : (st.bundle.openLegs[positionId]?).isSome with
    | true =>
      rw [hlive] at hlife
      cases hlife with
      | opened first le_now head rows_eq =>
        exact .opened first le_now head (by rw [rows_eq, if_pos rfl, openSpan_succ le_now])
    | false =>
      rw [hlive] at hlife
      cases hlife with
      | unborn no_fill no_row => exact .unborn no_fill (by rw [no_row]; simp)
      | closed first last le le_now head final rows_eq =>
        exact .closed first last le le_now head final (by rw [rows_eq]; simp)
  · rw [hbundle, hids]
    exact hl.minted
  · rw [hbundle]
    refine List.forall_mem_append.2 ⟨hl.ends, fun row hrow => ?_⟩
    obtain ⟨hrstep, hnone, hend⟩ := hall row hrow
    rw [hend, hlast, hrstep, hnone]
    simp

theorem lived_new (now next : Nat) (final : StepIndex) (initial : Cents) :
    Lived now next final (.new initial) where
  life positionId := by
    simp only [EngineState.new, BundleCollector.empty]
    exact .unborn rfl rfl
  minted := List.forall_mem_nil _
  ends := List.forall_mem_nil _

end Moves

section Runs

variable {S X R : Type} [ExecutionModel X] [TrackingModel X] [Strategy S R] [SeedableRng R]
  {r : Setup S X} {n : Nat} {log : List (Batch X)} {b : Batch X} {after : EngineState}
  {final : StepIndex} {s : RunState S X R}

omit [Strategy S R] [SeedableRng R] in
/-- One call keeps every leg alive in its rows. -/
theorem lived_call (ht : OrdersTracked log b.model b.before) (hlinked : Linked b.before)
    (ha : OpensAnchored (fun _ _ => True) b.before) (hl : Lived n n final b.before)
    (hstep : b.snapshot.step.value = (n : Int)) (hexec : b.Executed after) :
    Linked after ∧ Lived n n final after := by
  obtain ⟨ids, hmint, hstart⟩ := hexec.minted
  obtain ⟨hposition, -⟩ := mintSubmitIds_eq_ok hmint
  have hrun := (ht.events_along hexec (fun _ => trivial) hexec.carriesOwn along_true (fun st =>
    Linked st ∧ OpensAnchored (fun _ _ => True) st ∧ Lived n n final st) ?_ ?_).1
  · exact ⟨hrun.1, hrun.2.2⟩
  · rintro s t ev hev - hecho ⟨hlinked, ha, hl⟩ happly
    obtain ⟨hlinked', ha', -⟩ := applyEvent_linked hlinked ha hecho happly
    refine ⟨hlinked', ha', hl.step hlinked (fun fill hfill => ?_) happly⟩
    rw [hexec.law.stamped ev hev fill hfill, hstep]
  · rw [hstart]
    have hkeeps : Keeps b.before { b.before with ids } := .frame hposition rfl
    exact ⟨hlinked.frame rfl hposition rfl rfl, hkeeps.opensAnchored rfl ha,
      hl.congr rfl hposition⟩

/-- In every reachable state every leg lives in its rows. -/
theorem Setup.play_lived (hidle : Idle r.execution) (h : r.play n = .ok (log, s)) :
    Lived (n - 1) n r.feed.tapeMeta.finalStep s.engine := by
  obtain ⟨-, -, hsteps⟩ := TapeMeta.fromTape_eq_ok r.feed.accepted
  induction n generalizing log s with
  | zero =>
    obtain ⟨initial, first, b, -, hfirst, rfl, rfl, hbefore, hmodel, hexec, -, -⟩ :=
      Setup.play_zero h
    have ht : OrdersTracked [] b.model b.before := by
      rw [hmodel, hbefore]
      exact .start hidle initial
    refine (lived_call ht ?_ ?_ ?_ (hsteps 0 _ hfirst) hexec).2
    · rw [hbefore]
      exact linked_new initial
    · rw [hbefore]
      exact opensAnchored_new initial
    · rw [hbefore]
      exact lived_new 0 0 _ initial
  | succ n ih =>
    obtain ⟨prior, t, snapshot, b, point, after, hprior, hsnapshot, rfl, rfl, hbefore, hmodel,
      hexec, -, hsettled, -⟩ := Setup.play_succ h
    obtain ⟨ht, hlinked, ha⟩ := Setup.play_linked hidle hprior
    have hl := (ih hprior).later (Nat.sub_le n 1)
    rw [← hbefore] at ht hlinked ha hl
    rw [← hmodel] at ht
    have hstep := hsteps n _ hsnapshot
    obtain ⟨hlinked', hl'⟩ := lived_call ht hlinked ha hl hstep hexec
    exact hl'.settle hlinked' hstep rfl hsettled

/-- The positions table of the first `n` steps, leg by leg. -/
structure PositionsLived (n : Nat) (st : EngineState) : Prop where
  legs : ∀ positionId : PositionId, Life (n - 1) n (fillsOn positionId st.bundle.fills)
    ((rowsOf positionId st.bundle.positions).map rowKind)
    (decide (positionId ∈ legIds st.inventory))
  unique : st.bundle.positions.Pairwise fun a b =>
    ¬ (a.step = b.step ∧ a.positionId = b.positionId)

omit [ExecutionModel X] [TrackingModel X] [Strategy S R] [SeedableRng R] in
theorem Lived.positionsLived {st : EngineState} (hl : Lived (n - 1) n final st)
    (hlinked : Linked st) : PositionsLived n st where
  legs positionId := by
    have hlife := hl.life positionId
    have hlive : (st.bundle.openLegs[positionId]?).isSome =
        decide (positionId ∈ legIds st.inventory) := by
      rw [hlinked.openLegs_isSome, Bool.eq_iff_iff, decide_eq_true_iff]
      exact findLeg_isSome.symm
    rw [hlive] at hlife
    exact hlife
  unique := by
    have hlegs : ∀ positionId, (st.bundle.positions.filter fun row =>
        row.positionId = positionId).Pairwise fun a b => a.step.value < b.step.value := by
      intro positionId
      have hstrict := List.pairwise_map.1 (hl.life positionId).strict
      exact hstrict
    refine (List.pairwise_of_filter PositionSnapshot.positionId hlegs).imp fun hlt heq => ?_
    have hstep := hlt heq.2
    rw [heq.1] at hstep
    exact lt_irrefl _ hstep

/-- The legs with a marked row are the legs of the final inventory. -/
def EndsMarked (st : EngineState) : Prop :=
  ∀ positionId : PositionId, positionId ∈ legIds st.inventory ↔
    ∃ row ∈ st.bundle.positions, row.positionId = positionId ∧ row.openAtEnd = true

omit [ExecutionModel X] [TrackingModel X] [Strategy S R] [SeedableRng R] in
theorem Lived.endsMarked {st : EngineState} (hl : Lived (n - 1) n final st) (hlinked : Linked st)
    (hfinal : final.value + 1 = (n : Int)) : EndsMarked st := by
  have hpos := final.nonneg
  have hn : ((n - 1 : Nat) : Int) = final.value := by omega
  intro positionId
  have hlife := (hl.positionsLived hlinked).legs positionId
  have hrow : (∃ row ∈ st.bundle.positions, row.positionId = positionId ∧ row.openAtEnd = true) ↔
      (((n - 1 : Nat) : Int), false) ∈ (rowsOf positionId st.bundle.positions).map rowKind := by
    rw [List.mem_map]
    constructor
    · rintro ⟨row, hrow, hp, hend⟩
      obtain ⟨hnone, hstep⟩ := (hl.ends row hrow).1 hend
      refine ⟨row, List.mem_filter.2 ⟨hrow, decide_eq_true hp⟩, ?_⟩
      rw [rowKind, hnone, hstep, hn]
      rfl
    · rintro ⟨row, hrow, hkind⟩
      obtain ⟨hmem, hp⟩ := List.mem_filter.1 hrow
      obtain ⟨hstep, hnone⟩ := Prod.mk.inj hkind
      refine ⟨row, hmem, of_decide_eq_true hp, (hl.ends row hmem).2 ⟨?_, Bounded.ext ?_⟩⟩
      · exact Option.not_isSome_iff_eq_none.1 (by rw [hnone]; nofun)
      · rw [hstep, hn]
  rw [hrow, ← decide_eq_true_iff (p := positionId ∈ legIds st.inventory)]
  generalize decide (positionId ∈ legIds st.inventory) = live at hlife
  cases hlife with
  | unborn _ no_row => simp [no_row]
  | opened first le_now _ rows_eq =>
    rw [rows_eq, mem_openSpan]
    exact ⟨fun _ => ⟨n - 1, le_now, by omega, rfl⟩, fun _ => rfl⟩
  | closed first last le le_now _ _ rows_eq =>
    rw [rows_eq, List.mem_append, mem_openSpan, List.mem_singleton]
    refine ⟨nofun, ?_⟩
    rintro (⟨k, -, hlt, heq⟩ | heq)
    · have := (Prod.mk.inj heq).1
      omega
    · cases (Prod.mk.inj heq).2

theorem Setup.positions_lived (hidle : Idle r.execution) (h : r.play n = .ok (log, s)) :
    PositionsLived n s.engine ∧ (n = r.feed.tape.length → EndsMarked s.engine) := by
  have hl := Setup.play_lived hidle h
  obtain ⟨-, hlinked, -⟩ := Setup.play_linked hidle h
  obtain ⟨-, hfinal, -⟩ := TapeMeta.fromTape_eq_ok r.feed.accepted
  exact ⟨hl.positionsLived hlinked, fun hn => hl.endsMarked hlinked (hn ▸ hfinal)⟩

end Runs

section Modes

variable {S R B : Type} [DecimalArith] [Book B ObOrderId] [Strategy S R] [SeedableRng R]

/-- The positions table: in every run of either mode, a leg has one open row at every step from
its first fill to before its last, one terminal row at the step a fill takes its last contract,
and none after; and once the tape is played, the marked rows are those of the legs still open. -/
theorem positions_lifecycle (config : BacktestConfig) (feed : MaterialisedFeed) (strategy : S)
    (n : Nat) :
    (∀ log s, (Setup.naive config feed strategy).play n = .ok (log, s) →
        PositionsLived n s.engine ∧ (n = feed.tape.length → EndsMarked s.engine)) ∧
      ∀ log s, (Setup.realistic B config feed strategy).play n = .ok (log, s) →
        PositionsLived n s.engine ∧ (n = feed.tape.length → EndsMarked s.engine) :=
  ⟨fun _ _ h => Setup.positions_lived (idle_naive config feed strategy) h,
    fun _ _ h => Setup.positions_lived (idle_realistic config feed strategy) h⟩

end Modes

open SmallMarket in
/-- A leg opened at the startup has its open row at step 0 and its terminal row at step 1. -/
theorem positions_lifecycle_dip : ∃ log s,
    (Setup.realistic (ReferenceBook ObOrderId) (config .Realistic) dipFeed
      (⟨take, [closeOne .Short, closeOne .Short]⟩ : Script)).play 3 = .ok (log, s) ∧
      PositionsLived 3 s.engine ∧ EndsMarked s.engine := by
  obtain ⟨⟨log, s⟩, h⟩ := exists_eq_ok (r := (Setup.realistic (ReferenceBook ObOrderId)
    (config .Realistic) dipFeed
    (⟨take, [closeOne .Short, closeOne .Short]⟩ : Script)).play 3) (by decide +kernel)
  obtain ⟨hlived, hends⟩ := (positions_lifecycle _ _ _ 3).2 log s h
  exact ⟨log, s, h, hlived, hends rfl⟩

end IronCondor
