import IronCondor.Bundle.TableGate

/-! # Which bundles are read

A bundle is accepted exactly when it is well formed, and being well formed does not mention the
order of its rows: keys are unique, the per-step tables have one row for each step of the run, and
no fill or position lies beyond it. -/
namespace IronCondor

open Checked ExceptRun

section Manifest

variable {N : Type} [ManifestSerde N] {limits : ResourceLimits}

/-- The text is a manifest with these contents. -/
structure HoldsManifest (limits : ResourceLimits) (stored : Stored (List UInt8))
    (manifest : ValidatedManifest N) : Prop where
  parsed : ∃ text fields, stored = .Regular text ∧
    (text.length : Int) ≤ limits.maxManifestBytes.value ∧
    ManifestSerde.fromSlice text = .ok (Json.object fields) ∧
    fields.lookup "schema" = some (.string bundleSchema) ∧
    (∀ field ∈ requiredManifestFields, (fields.lookup field).isSome = true) ∧
    ManifestSerde.fromValue (.object fields) = .ok manifest
  strings : ∀ s ∈ manifest.strings, ShortString limits s

omit [ManifestSerde N] in
@[simp] theorem asObject_eq_some {value : Json N} {fields : List (String × Json N)} :
    value.asObject = some fields ↔ value = .object fields := by
  cases value <;> simp [Json.asObject]

omit [ManifestSerde N] in
@[simp] theorem asStr_eq_some {value : Json N} {s : String} :
    value.asStr = some s ↔ value = .string s := by
  cases value <;> simp [Json.asStr]

theorem parseManifest_eq_ok {text : List UInt8} {manifest : ValidatedManifest N} :
    parseManifest text limits = .ok manifest ↔
      (∃ fields, ManifestSerde.fromSlice text = .ok (Json.object fields) ∧
        fields.lookup "schema" = some (.string bundleSchema) ∧
        (∀ field ∈ requiredManifestFields, (fields.lookup field).isSome = true) ∧
        ManifestSerde.fromValue (.object fields) = .ok manifest) ∧
      ∀ s ∈ manifest.strings, ShortString limits s := by
  simp only [parseManifest, bind_ok_iff, upstream_eq_ok, okOr_eq_ok, asObject_eq_some,
    Option.bind_eq_some_iff, asStr_eq_some, require_eq_ok, forM_ok_iff, checkStringLen_eq_ok,
    pure_ok_iff, ShortString]
  constructor
  · rintro ⟨_, hparse, fields, rfl, _, ⟨_, hschema, rfl⟩, _, rfl, _, hrequired, _, hmanifest, _,
      hstrings, rfl⟩
    exact ⟨⟨fields, hparse, hschema, hrequired, hmanifest⟩, hstrings⟩
  · rintro ⟨⟨fields, hparse, hschema, hrequired, hmanifest⟩, hstrings⟩
    exact ⟨_, hparse, fields, rfl, _, ⟨_, hschema, rfl⟩, (), rfl, (), hrequired, manifest, hmanifest,
      (), hstrings, rfl⟩

theorem readManifest_eq_ok {stored : Stored (List UInt8)} {manifest : ValidatedManifest N} :
    readManifest stored limits = .ok manifest ↔ HoldsManifest limits stored manifest := by
  have hmissing : ¬ (∃ text, stored = .Regular text) → ¬ HoldsManifest limits stored manifest :=
    fun h hholds => h (hholds.parsed.imp fun _ ⟨_, hstored, _⟩ => hstored)
  cases stored with
  | Missing msg | Special => simpa [readManifest] using hmissing (by simp)
  | Unreadable len msg =>
    simpa [readManifest, bind_ok_iff] using hmissing (by simp)
  | Regular text =>
    simp only [readManifest, bind_ok_iff, checkManifestBytes, require_eq_ok, parseManifest_eq_ok]
    constructor
    · rintro ⟨_, hlength, ⟨fields, hparse, hrest⟩, hstrings⟩
      rw [List.take_of_length_le (by omega)] at hparse
      exact ⟨⟨text, fields, rfl, hlength, hparse, hrest⟩, hstrings⟩
    · rintro ⟨⟨_, fields, ⟨⟩, hlength, hparse, hrest⟩, hstrings⟩
      refine ⟨(), hlength, ⟨fields, ?_, hrest⟩, hstrings⟩
      rwa [List.take_of_length_le (by omega)]

end Manifest

section Rows

variable {F : Type} [RatioFloat F] {limits : ResourceLimits}

theorem fillsSchema_names : (fillsSchema.map ColumnField.name).Nodup := by decide

theorem equitySchema_names : (equitySchema.map ColumnField.name).Nodup := by decide

theorem positionsSchema_names : (positionsSchema.map ColumnField.name).Nodup := by decide

theorem greeksSchema_names : (greeksSchema.map ColumnField.name).Nodup := by decide

/-- The cells are those of the fill. -/
def HoldsFill (limits : ResourceLimits) (cells : FillCells) (row : FillRow) : Prop :=
  row.cells = .ok cells ∧ row.Readable limits

/-- The cells are those of the equity point. -/
def HoldsEquity (cells : EquityCells F) (row : EquityRow F) : Prop := row.cells = .ok cells

/-- The cells are those of the position. -/
def HoldsPosition (limits : ResourceLimits) (cells : PositionCells) (row : PositionRow) : Prop :=
  row.cells = .ok cells ∧ row.Readable limits

/-- The cells are those of the attribution row. -/
def HoldsGreeks (cells : GreeksCells) (row : GreeksAttributionRow) : Prop :=
  row.cells = .ok cells ∧ 0 ≤ row.feesCents.value

end Rows

section Order

theorem Bounded.compare_isLE {r : IntRange} {a b : Bounded r} :
    (compare a b).isLE = true ↔ a.value ≤ b.value :=
  Std.isLE_compare (α := Int)

/-- What is ordered by two keys is ordered by the first. -/
theorem isLE_of_compareLex {α : Type} {cmp cmp' : α → α → Ordering} {a b : α}
    (h : (compareLex cmp cmp' a b).isLE = true) : (cmp a b).isLE = true := by
  rw [compareLex] at h
  cases hcmp : cmp a b with
  | gt =>
    rw [hcmp] at h
    cases h
  | lt | eq => rfl

end Order

section Structure

variable {F : Type}

/-- A table has one row for each step from zero on. -/
def OneRowEachStep {Row : Type} (step : Row → StepIndex) (rows : List Row) : Prop :=
  (rows.map step).Nodup ∧ ∀ row ∈ rows, (step row).value < rows.length

/-- What the structural validation is about, in whatever order the rows come. -/
structure BundleTables.WellFormed (tables : BundleTables F) : Prop where
  fillKeys : (tables.fills.map fillSortKey).Nodup
  positionKeys : (tables.positions.map positionSortKey).Nodup
  equitySteps : OneRowEachStep equitySortKey tables.equityCurve
  greeksSteps : OneRowEachStep greeksSortKey tables.greeksAttribution
  sameSteps : tables.equityCurve.length = tables.greeksAttribution.length
  stepCount : u32.Contains (tables.equityCurve.length : Nat)
  fillSteps : ∀ row ∈ tables.fills, row.step.value < tables.equityCurve.length
  positionSteps : ∀ row ∈ tables.positions, row.step.value < tables.equityCurve.length

/-- The same rows in every table, in any order. -/
structure BundleTables.Rearranges (tables tables' : BundleTables F) : Prop where
  fills : tables.fills.Perm tables'.fills
  equityCurve : tables.equityCurve.Perm tables'.equityCurve
  positions : tables.positions.Perm tables'.positions
  greeksAttribution : tables.greeksAttribution.Perm tables'.greeksAttribution

/-- The scan finds a key that two adjacent rows share; `prev` is the key of the row before. -/
theorem checkNextKey_run {Row κ : Type} [DecidableEq κ] {key : Row → κ} {duplicate : κ → String}
    {rows : List Row} (prev : Option κ) :
    (∃ last, rows.foldlM (checkNextKey key duplicate) prev = .ok last) ↔
      (prev.toList ++ rows.map key).IsChain (· ≠ ·) := by
  induction rows generalizing prev with
  | nil => cases prev <;> simp
  | cons row rows ih =>
    have hstep : (∃ last, (row :: rows).foldlM (checkNextKey key duplicate) prev = .ok last) ↔
        prev ≠ some (key row) ∧ (key row :: rows.map key).IsChain (· ≠ ·) := by
      have hrest := ih (some (key row))
      rw [Option.toList_some, List.singleton_append] at hrest
      rw [← hrest]
      simp only [foldlM_cons_ok, checkNextKey, bind_ok_iff, require_eq_ok, pure_ok_iff]
      constructor
      · rintro ⟨last, _, ⟨_, hprev, rfl⟩, hlast⟩
        exact ⟨hprev, last, hlast⟩
      · rintro ⟨hprev, last, hlast⟩
        exact ⟨last, _, ⟨(), hprev, rfl⟩, hlast⟩
    rw [hstep]
    cases prev <;> simp [List.isChain_cons_cons]

theorem validateUniqueKeys_eq_ok {Row κ : Type} [DecidableEq κ] {key : Row → κ}
    {duplicate : κ → String} {rows : List Row} {u : Unit} :
    validateUniqueKeys key duplicate rows = .ok u ↔ (rows.map key).IsChain (· ≠ ·) := by
  rw [validateUniqueKeys, bind_ok_iff]
  simp only [pure_ok_iff, and_true]
  exact checkNextKey_run none

theorem validateContiguousSteps_eq_ok {table : String} {steps : List StepIndex} {u : Unit} :
    validateContiguousSteps table steps = .ok u ↔
      steps.map Bounded.value = (List.range steps.length).map Nat.cast := by
  have hleft : steps.map Bounded.value = steps.zipIdx.map fun entry => entry.1.value := by
    rw [← Function.comp_def, ← List.map_map, List.zipIdx_map_fst]
  have hright : (List.range steps.length).map (Nat.cast : Nat → Int) =
      steps.zipIdx.map fun entry => (entry.2 : Int) := by
    rw [← Function.comp_def (Nat.cast : Nat → Int), ← List.map_map, List.zipIdx_map_snd,
      List.range_eq_range']
  rw [hleft, hright, List.map_inj_left]
  simp only [validateContiguousSteps, forM_ok_iff, bind_ok_iff, narrow_eq_ok, require_eq_ok]
  refine forall₂_congr fun entry _ => ?_
  constructor
  · rintro ⟨expected, hexpected, rfl⟩
    exact hexpected
  · exact fun h => ⟨entry.1, h, rfl⟩

theorem validateLastStep_eq_ok {table : String} {stepCount : Bounded u32}
    {last : Option StepIndex} {u : Unit} : validateLastStep table stepCount last = .ok u ↔
      ∀ step ∈ last, step.value < stepCount.value := by
  cases last with
  | none => simp [validateLastStep]
  | some step => simp [validateLastStep]

/-- The steps of a sorted table count up from zero when each has one row. -/
theorem validateContiguousSteps_sort {Row : Type} {table : String} {step : Row → StepIndex}
    {rows : List Row} {u : Unit} :
    validateContiguousSteps table ((SortedTable.sort compare step rows).map step) = .ok u ↔
      OneRowEachStep step rows := by
  have hperm := SortedTable.sort_perm compare step rows
  have hsorted : (((SortedTable.sort compare step rows).map step).map Bounded.value).Pairwise
      (· ≤ ·) := by
    rw [List.pairwise_map, List.pairwise_map]
    have h : SortedTable.Sorted compare step (SortedTable.sort compare step rows) :=
      SortedTable.sorted_sort rows
    exact h.imp Bounded.compare_isLE.1
  rw [validateContiguousSteps_eq_ok, ← List.length_map (f := Bounded.value),
    SortedTable.counts_up_iff hsorted (List.forall_mem_map.2 fun k _ => k.nonneg),
    List.nodup_map_iff Bounded.value_injective, SortedTable.nodup_sort]
  simp [OneRowEachStep]

/-- The steps of rows sorted by step first are bounded by the last one. -/
theorem validateLastStep_sorted {Row : Type} {table : String} {stepCount : Bounded u32}
    {step : Row → StepIndex} {R : Row → Row → Prop} {rows : List Row} {u : Unit}
    (h : rows.Pairwise R)
    (hstep : ∀ a b, R a b → (step a).value ≤ (step b).value) :
    validateLastStep table stepCount (rows.getLast?.map step) = .ok u ↔
      ∀ row ∈ rows, (step row).value < stepCount.value := by
  rw [validateLastStep_eq_ok, ← SortedTable.forall_last_iff h]
  · cases rows.getLast? <;> simp
  · exact fun a b hab hb => (hstep a b hab).trans_lt hb

theorem FillKey.step_le {a b : FillKey} (h : (FillKey.cmp a b).isLE = true) :
    a.step.value ≤ b.step.value := by
  have hstep : (compareOn FillKey.step a b).isLE = true := isLE_of_compareLex h
  exact Bounded.compare_isLE.1 hstep

theorem PositionKey.step_le {a b : PositionKey} (h : (PositionKey.cmp a b).isLE = true) :
    a.step.value ≤ b.step.value := by
  have hstep : (compareOn PositionKey.step a b).isLE = true := isLE_of_compareLex h
  exact Bounded.compare_isLE.1 hstep

/-- Sorted tables pass the structural validation exactly when the tables are well formed. -/
theorem validateStructure_eq_ok {tables : BundleTables F} :
    tables.sorted.validateStructure = .ok () ↔ tables.WellFormed := by
  have hfills : (SortedTable.sort FillKey.cmp fillSortKey tables.fills).Pairwise _ :=
    SortedTable.sorted_sort _
  have hpositions : (SortedTable.sort PositionKey.cmp positionSortKey tables.positions).Pairwise _ :=
    SortedTable.sorted_sort _
  have hfillSteps : ∀ (count : Bounded u32) (u : Unit), validateLastStep "fills" count
      ((SortedTable.sort FillKey.cmp fillSortKey tables.fills).getLast?.map FillRow.step) = .ok u ↔
        ∀ row ∈ tables.fills, row.step.value < count.value := by
    intro count u
    refine (validateLastStep_sorted hfills fun _ _ => FillKey.step_le).trans ?_
    simp [fillSortKey]
  have hpositionSteps : ∀ (count : Bounded u32) (u : Unit), validateLastStep "positions" count
      ((SortedTable.sort PositionKey.cmp positionSortKey tables.positions).getLast?.map
        PositionRow.step) = .ok u ↔
        ∀ row ∈ tables.positions, row.step.value < count.value := by
    intro count u
    refine (validateLastStep_sorted hpositions fun _ _ => PositionKey.step_le).trans ?_
    simp [positionSortKey]
  have hequity : ∀ u : Unit, validateContiguousSteps "equity_curve"
      ((SortedTable.sort compare equitySortKey tables.equityCurve).map EquityRow.step) = .ok u ↔
        OneRowEachStep equitySortKey tables.equityCurve :=
    fun _ => validateContiguousSteps_sort
  have hgreeks : ∀ u : Unit, validateContiguousSteps "greeks_attribution"
      ((SortedTable.sort compare greeksSortKey tables.greeksAttribution).map
        GreeksAttributionRow.step) = .ok u ↔
        OneRowEachStep greeksSortKey tables.greeksAttribution :=
    fun _ => validateContiguousSteps_sort
  simp only [BundleTables.validateStructure, BundleTables.sorted, validateUniqueFillKeys,
    validateUniquePositionKeys, validateCrossTableStepConsistency, bind_ok_iff,
    validateUniqueKeys_eq_ok, hequity, hgreeks, SortedTable.isChain_ne_iff_nodup hfills,
    SortedTable.isChain_ne_iff_nodup hpositions, SortedTable.nodup_sort, require_eq_ok,
    narrow_eq_ok, SortedTable.length_sort, hfillSteps, hpositionSteps]
  constructor
  · rintro ⟨_, hfillKeys, _, hpositionKeys, _, hequitySteps, _, hgreeksSteps, _, hsame, count,
      hcount, _, hfillSteps, hpositionSteps⟩
    rw [hcount] at hfillSteps hpositionSteps
    exact ⟨hfillKeys, hpositionKeys, hequitySteps, hgreeksSteps, hsame,
      hcount ▸ count.inRange, hfillSteps, hpositionSteps⟩
  · intro h
    exact ⟨(), h.fillKeys, (), h.positionKeys, (), h.equitySteps, (), h.greeksSteps, (), h.sameSteps, ⟨_, h.stepCount⟩, rfl, (), h.fillSteps,
      h.positionSteps⟩

theorem OneRowEachStep.congr {Row : Type} {step : Row → StepIndex} {rows rows' : List Row}
    (h : rows.Perm rows') (hrows : OneRowEachStep step rows) : OneRowEachStep step rows' :=
  ⟨(h.map step).nodup_iff.1 hrows.1, fun row hrow =>
    h.length_eq ▸ hrows.2 row (h.mem_iff.2 hrow)⟩

namespace BundleTables

variable {tables tables' : BundleTables F}

theorem Rearranges.symm (h : tables.Rearranges tables') : tables'.Rearranges tables :=
  ⟨h.fills.symm, h.equityCurve.symm, h.positions.symm, h.greeksAttribution.symm⟩

theorem WellFormed.congr (h : tables.Rearranges tables') (htables : tables.WellFormed) :
    tables'.WellFormed := by
  have hlength := h.equityCurve.length_eq
  refine ⟨(h.fills.map _).nodup_iff.1 htables.fillKeys,
    (h.positions.map _).nodup_iff.1 htables.positionKeys, htables.equitySteps.congr h.equityCurve,
    htables.greeksSteps.congr h.greeksAttribution, ?_, hlength ▸ htables.stepCount, ?_, ?_⟩
  · rw [← hlength, htables.sameSteps, h.greeksAttribution.length_eq]
  · exact fun row hrow => hlength ▸ htables.fillSteps row (h.fills.mem_iff.2 hrow)
  · exact fun row hrow => hlength ▸ htables.positionSteps row (h.positions.mem_iff.2 hrow)

end BundleTables

end Structure

section Bundle

variable {N F T : Type} [Sha256] [RatioFloat F] [ManifestSerde N] [TableFormat T FillCells]
  [TableFormat T (EquityCells F)] [TableFormat T PositionCells] [TableFormat T GreeksCells]
  {dir dir' : BundleDir T} {files : Files} {limits : ResourceLimits} {tables tables' : BundleTables F}
  {bundle : ValidatedBundle N F}

/-- The directory stores these tables. -/
structure BundleDir.HoldsTables (limits : ResourceLimits) (dir : BundleDir T)
    (tables : BundleTables F) : Prop where
  fills : dir.fills.Holds fillsSchema limits (HoldsFill limits) tables.fills
  equityCurve : dir.equityCurve.Holds equitySchema limits HoldsEquity tables.equityCurve
  positions : dir.positions.Holds positionsSchema limits (HoldsPosition limits) tables.positions
  greeksAttribution :
    dir.greeksAttribution.Holds greeksSchema limits HoldsGreeks tables.greeksAttribution

omit [Sha256] in
theorem decodeTables_eq_ok :
    decodeTables dir limits = .ok tables ↔ dir.HoldsTables limits tables := by
  have hfills : ∀ rows, decodeTable "fills" fillsSchema limits (decodeFill limits) dir.fills =
      .ok rows ↔ _ :=
    fun _ => decodeTable_eq_ok fillsSchema_names fun _ _ _ => decodeFill_eq_ok
  have hequity : ∀ rows : List (EquityRow F), decodeTable "equity_curve" equitySchema limits
      decodeEquity dir.equityCurve = .ok rows ↔ _ :=
    fun _ => decodeTable_eq_ok equitySchema_names fun _ _ _ => decodeEquity_eq_ok
  have hpositions : ∀ rows, decodeTable "positions" positionsSchema limits (decodePosition limits)
      dir.positions = .ok rows ↔ _ :=
    fun _ => decodeTable_eq_ok positionsSchema_names fun _ _ _ => decodePosition_eq_ok
  have hgreeks : ∀ rows, decodeTable "greeks_attribution" greeksSchema limits decodeGreeks
      dir.greeksAttribution = .ok rows ↔ _ :=
    fun _ => decodeTable_eq_ok greeksSchema_names fun _ _ _ => decodeGreeks_eq_ok
  simp only [decodeTables, bind_ok_iff, hfills, hequity, hpositions, hgreeks, pure_ok_iff]
  constructor
  · rintro ⟨_, hfills, _, hequity, _, hpositions, _, hgreeks, rfl⟩
    exact ⟨hfills, hequity, hpositions, hgreeks⟩
  · intro h
    exact ⟨_, h.fills, _, h.equityCurve, _, h.positions, _, h.greeksAttribution, rfl⟩

/-- The number of rows of every table. -/
def BundleTables.counts (tables : BundleTables F) : RowCounts where
  fills := tables.fills.length
  equityCurve := tables.equityCurve.length
  positions := tables.positions.length
  greeksAttribution := tables.greeksAttribution.length

omit [Sha256] [RatioFloat F] in
theorem checkCounts_eq_ok {counts : RowCounts} :
    tables.checkCounts counts = .ok () ↔ tables.counts = counts := by
  simp only [BundleTables.checkCounts, checkCount, bind_ok_iff, require_eq_ok]
  constructor
  · rintro ⟨_, hfills, _, hequity, _, hpositions, hgreeks⟩
    cases counts
    simp_all [BundleTables.counts]
  · rintro rfl
    exact ⟨(), rfl, (), rfl, (), rfl, rfl⟩

/-- A pinned Parquet input that can be read is the one that was hashed. -/
def InputUnchanged (files : Files) (limits : ResourceLimits) (spec : DataSourceSpec) : Prop :=
  ∀ path recorded bytes, spec = .Parquet path recorded → recorded ≠ "" →
    files path = .Regular bytes → fileSha256Bounded bytes limits.maxFileBytes = recorded

theorem verifyReferencedInput_eq_ok {spec : DataSourceSpec} :
    verifyReferencedInput files spec limits false = .ok () ↔ InputUnchanged files limits spec := by
  cases spec with
  | Csv path sha256 | Simulator spec => simp [verifyReferencedInput, InputUnchanged]
  | Parquet path recorded =>
    have hunchanged : InputUnchanged files limits (.Parquet path recorded) ↔ recorded ≠ "" →
        ∀ bytes, files path = .Regular bytes →
          fileSha256Bounded bytes limits.maxFileBytes = recorded := by
      constructor
      · exact fun h hpinned bytes hbytes => h path recorded bytes rfl hpinned hbytes
      · rintro h _ _ bytes ⟨⟩ hpinned hbytes
        exact h hpinned bytes hbytes
    rw [hunchanged]
    by_cases hempty : recorded = ""
    · simp [verifyReferencedInput, hempty]
    · cases hfile : files path <;> simp [verifyReferencedInput, hempty, hfile]

/-- The directory is a bundle with this manifest and, in the order of its files, these rows. -/
structure BundleDir.Stores (files : Files) (limits : ResourceLimits) (dir : BundleDir T)
    (manifest : ValidatedManifest N) (tables : BundleTables F) : Prop where
  holdsManifest : HoldsManifest limits dir.manifest manifest
  holdsTables : dir.HoldsTables limits tables
  counts : tables.counts = manifest.rowCounts
  input : InputUnchanged files limits manifest.dataSource
  fills : ∀ row ∈ tables.fills, row.Canonical ∧ row.strategyRunId = manifest.runId
  positions : ∀ row ∈ tables.positions, row.Canonical
  wellFormed : tables.WellFormed

/-- What is read was stored, and is handed on sorted. -/
theorem stores_of_readBundle (h : readBundle dir files limits = .ok bundle) :
    ∃ tables, dir.Stores files limits bundle.manifest tables ∧
      bundle.toBundleTables = tables.sorted := by
  simp only [readBundle, bind_ok_iff, readManifest_eq_ok, decodeTables_eq_ok, pure_ok_iff] at h
  obtain ⟨manifest, hmanifest, tables, htables, _, hcounts, _, hinput, _, hrows, _, hstructure,
    rfl⟩ := h
  obtain ⟨hfills, hpositions⟩ := verifyRows_eq_ok.1 hrows
  exact ⟨tables, ⟨hmanifest, htables, checkCounts_eq_ok.1 hcounts,
    verifyReferencedInput_eq_ok.1 hinput, hfills, hpositions,
    validateStructure_eq_ok.1 hstructure⟩, rfl⟩

/-- What is stored is read, and handed on sorted. -/
theorem BundleDir.Stores.readBundle {manifest : ValidatedManifest N}
    (h : dir.Stores files limits manifest tables) :
    readBundle dir files limits = .ok { tables.sorted with manifest } := by
  simp only [IronCondor.readBundle, bind_ok_iff, readManifest_eq_ok, decodeTables_eq_ok,
    pure_ok_iff]
  exact ⟨_, h.holdsManifest, tables, h.holdsTables, (), checkCounts_eq_ok.2 h.counts, (),
    verifyReferencedInput_eq_ok.2 h.input, (), verifyRows_eq_ok.2 ⟨h.fills, h.positions⟩, (),
    validateStructure_eq_ok.2 h.wellFormed, rfl⟩

/-- A directory is read exactly when it stores a bundle, and as that bundle sorted. -/
theorem readBundle_iff_stores : readBundle dir files limits = .ok bundle ↔
    ∃ tables, dir.Stores files limits bundle.manifest tables ∧
      bundle.toBundleTables = tables.sorted := by
  refine ⟨stores_of_readBundle, fun ⟨tables, h, hsorted⟩ => ?_⟩
  rw [h.readBundle, ← hsorted]

omit [Sha256] [RatioFloat F] in
theorem BundleTables.Rearranges.counts (h : tables.Rearranges tables') :
    tables'.counts = tables.counts := by
  simp [BundleTables.counts, h.fills.length_eq, h.equityCurve.length_eq, h.positions.length_eq,
    h.greeksAttribution.length_eq]

theorem BundleDir.Stores.congr {manifest : ValidatedManifest N}
    (h : dir.Stores files limits manifest tables) (hmanifest : dir.manifest = dir'.manifest)
    (htables : dir'.HoldsTables limits tables') (hrows : tables.Rearranges tables') :
    dir'.Stores files limits manifest tables' where
  holdsManifest := hmanifest ▸ h.holdsManifest
  holdsTables := htables
  counts := hrows.counts.trans h.counts
  input := h.input
  fills row hrow := h.fills row (hrows.fills.mem_iff.2 hrow)
  positions row hrow := h.positions row (hrows.positions.mem_iff.2 hrow)
  wellFormed := h.wellFormed.congr hrows

end Bundle

end IronCondor
