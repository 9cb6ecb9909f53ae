import IronCondor.Data.TypedRows
import IronCondor.Lib.Pointwise

/-! # Reading typed rows from a directory of CSV files

A record is read through the columns of its header, the records of a file make one snapshot, and
what the whole directory leaves is what its typed rows mean. -/
namespace IronCondor

open Checked ExceptRun

variable {F : Type} [FloatText F]

/-- The cell of a record in the column of this name. -/
def csvValue (header record : List String) (name : String) : Option String :=
  (header.findIdx? (· == name)).bind fun i => record[i]?

/-- A Greek as a cell: empty or without a column when it is absent. -/
def WritesGreek (cell : Option String) : Option F → Prop
  | none => cell.getD "" = ""
  | some value => ∃ text, cell = some text ∧ FloatText.parse text = some value

/-- The record carries the row: integers in decimal, floats in a text that reads back as them. -/
structure WritesRow (header : List String) (row : TypedRow F) (record : List String) : Prop where
  ts : csvValue header record "ts" = some (toString row.ts.value)
  underlying : csvValue header record "underlying" = some row.underlying
  underlyingPrice : csvValue header record "underlying_price" =
    some (toString row.underlyingPrice.value)
  tickSize : csvValue header record "tick_size" = some (toString row.tickSize.value)
  contractMultiplier : csvValue header record "contract_multiplier" =
    some (toString row.contractMultiplier.value)
  expiration : csvValue header record "expiration" = some (toString row.expiration.value)
  strike : csvValue header record "strike" = some (toString row.strike.value)
  style : csvValue header record "style" = some row.style
  bid : csvValue header record "bid" = some (toString row.bid.value)
  ask : csvValue header record "ask" = some (toString row.ask.value)
  bidSize : csvValue header record "bid_size" = some (toString row.bidSize.value)
  askSize : csvValue header record "ask_size" = some (toString row.askSize.value)
  impliedVolatility : ∃ text, csvValue header record "implied_volatility" = some text ∧
    FloatText.parse text = some row.impliedVolatility
  delta : WritesGreek (csvValue header record "delta") row.delta
  gamma : WritesGreek (csvValue header record "gamma") row.gamma
  theta : WritesGreek (csvValue header record "theta") row.theta
  vega : WritesGreek (csvValue header record "vega") row.vega

/-- The bytes are a CSV file of the rows of one snapshot, no cell with blanks around it. -/
structure WritesCsv [CsvDecoder] (rows : List (TypedRow F)) (bytes : List UInt8)
    (header : List String) (records : List (List String)) : Prop where
  decodes : CsvDecoder.read bytes = ⟨.ok header, records, none⟩
  header_trimmed : ∀ cell ∈ header, trimBlanks cell = cell
  records_trimmed : ∀ record ∈ records, ∀ cell ∈ record, trimBlanks cell = cell
  rows : List.Forall₂ (WritesRow header) rows records

/-- A column index is that of the first column of the name. -/
structure CsvColumns.Resolves (header : List String) (cols : CsvColumns) : Prop where
  ts : header.findIdx? (· == "ts") = some cols.ts
  underlying : header.findIdx? (· == "underlying") = some cols.underlying
  underlyingPrice : header.findIdx? (· == "underlying_price") = some cols.underlyingPrice
  tickSize : header.findIdx? (· == "tick_size") = some cols.tickSize
  contractMultiplier : header.findIdx? (· == "contract_multiplier") = some cols.contractMultiplier
  expiration : header.findIdx? (· == "expiration") = some cols.expiration
  strike : header.findIdx? (· == "strike") = some cols.strike
  style : header.findIdx? (· == "style") = some cols.style
  bid : header.findIdx? (· == "bid") = some cols.bid
  ask : header.findIdx? (· == "ask") = some cols.ask
  bidSize : header.findIdx? (· == "bid_size") = some cols.bidSize
  askSize : header.findIdx? (· == "ask_size") = some cols.askSize
  impliedVolatility : header.findIdx? (· == "implied_volatility") = some cols.impliedVolatility
  delta : header.findIdx? (· == "delta") = cols.delta
  gamma : header.findIdx? (· == "gamma") = cols.gamma
  theta : header.findIdx? (· == "theta") = cols.theta
  vega : header.findIdx? (· == "vega") = cols.vega

theorem findIdx_of_value {header record : List String} {name text : String}
    (h : csvValue header record name = some text) :
    ∃ i, header.findIdx? (· == name) = some i := by
  obtain ⟨i, hi, -⟩ := Option.bind_eq_some_iff.1 h
  exact ⟨i, hi⟩

/-- A header whose records carry a row resolves. -/
theorem fromHeader_eq_ok {header : List String} {row : TypedRow F} {record : List String}
    (h : WritesRow header row record) :
    ∃ cols, CsvColumns.fromHeader header = .ok cols ∧ cols.Resolves header := by
  obtain ⟨ts, hts⟩ := findIdx_of_value h.ts
  obtain ⟨underlying, hunderlying⟩ := findIdx_of_value h.underlying
  obtain ⟨underlyingPrice, hunderlyingPrice⟩ := findIdx_of_value h.underlyingPrice
  obtain ⟨tickSize, htickSize⟩ := findIdx_of_value h.tickSize
  obtain ⟨contractMultiplier, hcontractMultiplier⟩ := findIdx_of_value h.contractMultiplier
  obtain ⟨expiration, hexpiration⟩ := findIdx_of_value h.expiration
  obtain ⟨strike, hstrike⟩ := findIdx_of_value h.strike
  obtain ⟨style, hstyle⟩ := findIdx_of_value h.style
  obtain ⟨bid, hbid⟩ := findIdx_of_value h.bid
  obtain ⟨ask, hask⟩ := findIdx_of_value h.ask
  obtain ⟨bidSize, hbidSize⟩ := findIdx_of_value h.bidSize
  obtain ⟨askSize, haskSize⟩ := findIdx_of_value h.askSize
  obtain ⟨_, hcell, -⟩ := h.impliedVolatility
  obtain ⟨impliedVolatility, himpliedVolatility⟩ := findIdx_of_value hcell
  refine ⟨⟨ts, underlying, underlyingPrice, tickSize, contractMultiplier, expiration, strike, style,
    bid, ask, bidSize, askSize, impliedVolatility, header.findIdx? (· == "delta"),
    header.findIdx? (· == "gamma"), header.findIdx? (· == "theta"),
    header.findIdx? (· == "vega")⟩, ?_, ?_⟩
  · simp only [CsvColumns.fromHeader, hts, hunderlying, hunderlyingPrice, htickSize,
      hcontractMultiplier, hexpiration, hstrike, hstyle, hbid, hask, hbidSize, haskSize,
      himpliedVolatility, okOr, ok_bind]
    rfl
  · exact ⟨hts, hunderlying, hunderlyingPrice, htickSize, hcontractMultiplier, hexpiration, hstrike,
      hstyle, hbid, hask, hbidSize, haskSize, himpliedVolatility, rfl, rfl, rfl, rfl⟩

/-- A required cell is the one in the column of its name. -/
theorem csvCell_eq {header record : List String} {name text : String} {i : Nat}
    (hcol : header.findIdx? (· == name) = some i)
    (h : csvValue header record name = some text) : csvCell record i name = .ok text := by
  unfold csvValue at h
  rw [hcol, Option.bind_some] at h
  rw [csvCell, h, okOr]

theorem optGreek_eq_ok [AnalyticFloat F] {header record : List String} {name : String}
    {i : Option Nat} {greek : Option F} (hcol : header.findIdx? (· == name) = i)
    (h : WritesGreek (csvValue header record name) greek) :
    optGreek record i name = .ok (greekF64 greek) := by
  unfold csvValue at h
  rw [hcol] at h
  unfold optGreek
  cases greek with
  | none =>
    change (i.bind fun i => record[i]?).getD "" = "" at h
    cases hcell : i.bind fun i => record[i]? with
    | none => rfl
    | some cell =>
      rw [hcell, Option.getD_some] at h
      simp [h, greekF64]
  | some value =>
    obtain ⟨text, hcell, hparse⟩ := h
    have hne : text ≠ "" := by
      rintro rfl
      rw [FloatText.parse_empty] at hparse
      cases hparse
    rw [hcell]
    simp [hne, greekF64, parseF64, hparse, okOr]

section Records

variable [AnalyticFloat F] {header record : List String} {cols : CsvColumns} {row : TypedRow F}
  {limits : ResourceLimits} {step : StepIndex}

omit [AnalyticFloat F] in
theorem csvHead_eq_ok {head : SnapshotHead} (hcols : cols.Resolves header)
    (hrow : WritesRow header row record) :
    csvHead cols record = .ok head ↔ row.Head head := by
  simp only [csvHead, csvCell_eq hcols.ts hrow.ts, csvCell_eq hcols.underlying hrow.underlying,
    csvCell_eq hcols.underlyingPrice hrow.underlyingPrice, csvCell_eq hcols.tickSize hrow.tickSize,
    csvCell_eq hcols.contractMultiplier hrow.contractMultiplier, ok_bind, bind_ok_iff,
    parseI64_toString, parseCents_toString, parseU32_toString, Underlying.new_eq_ok, pure_ok_iff]
  constructor
  · rintro ⟨ts, hts, underlying, hunderlying, price, hprice, tick, htick, multiplier, hmultiplier,
      rfl⟩
    exact ⟨Bounded.ext hts, hunderlying, hprice, htick, hmultiplier⟩
  · rintro ⟨hts, hunderlying, hprice, htick, hmultiplier⟩
    exact ⟨head.ts, congrArg Bounded.value hts, head.underlying, hunderlying, head.underlyingPrice,
      hprice, head.tickSizeCents, htick, head.contractMultiplier, hmultiplier, rfl⟩

theorem csvQuote_eq_ok {quote : RawQuote F} (hcols : cols.Resolves header)
    (hrow : WritesRow header row record) :
    csvQuote cols record = .ok quote ↔ row.Quote quote := by
  obtain ⟨text, hcell, hparse⟩ := hrow.impliedVolatility
  simp only [csvQuote, csvCell_eq hcols.expiration hrow.expiration,
    csvCell_eq hcols.strike hrow.strike, csvCell_eq hcols.style hrow.style,
    csvCell_eq hcols.bid hrow.bid, csvCell_eq hcols.ask hrow.ask,
    csvCell_eq hcols.bidSize hrow.bidSize, csvCell_eq hcols.askSize hrow.askSize,
    csvCell_eq hcols.impliedVolatility hcell, parseF64_eq_ok, hparse, Option.some.injEq,
    optGreek_eq_ok hcols.delta hrow.delta, optGreek_eq_ok hcols.gamma hrow.gamma,
    optGreek_eq_ok hcols.theta hrow.theta, optGreek_eq_ok hcols.vega hrow.vega, ok_bind,
    bind_ok_iff, parseI64_toString, parseCents_toString, parseU32_toString, Quantity.new_eq_ok,
    pure_ok_iff]
  constructor
  · rintro ⟨expiration, hexpiration, strike, hstrike, style, hstyle, bid, hbid, ask, hask,
      bidCount, hbidCount, bidSize, hbidSize, askCount, haskCount, askSize, haskSize, iv, rfl, rfl⟩
    exact ⟨congrArg (fun ns => ExpirationDate.DateTime (.ofNanos ns)) hexpiration, hstrike, hstyle,
      hbid, hask, hbidSize.trans hbidCount, haskSize.trans haskCount, rfl, rfl, rfl, rfl, rfl⟩
  · rintro ⟨hexpiration, hstrike, hstyle, hbid, hask, hbidSize, haskSize, hiv, hdelta, hgamma,
      htheta, hvega⟩
    refine ⟨row.expiration, rfl, quote.strike, hstrike, quote.style, hstyle, quote.bid, hbid,
      quote.ask, hask, quote.bidSize.toU32, hbidSize, quote.bidSize, rfl, quote.askSize.toU32,
      haskSize, quote.askSize, rfl, row.impliedVolatility, rfl, ?_⟩
    obtain ⟨_, _, _, _, _, _, _, _, _, _, _, _⟩ := quote
    simp_all only

/-- One more record of a file: it carries the fields of the first, and adds its quote. -/
theorem readRecord_eq_ok {parsed parsed' : ParsedCsv F} (hcols : cols.Resolves header)
    (hrow : WritesRow header row record) :
    readRecord limits step cols parsed record = .ok parsed' ↔
      ∃ head, row.Head head ∧ (∀ first, parsed.headerFields = some first → first = head) ∧
        ((parsed.quotes.length + 1 : Nat) : Int) ≤ limits.maxContractsPerSnapshot.value ∧
        ∃ quote, row.Quote quote ∧ parsed' = ⟨some head, parsed.quotes ++ [quote]⟩ := by
  obtain ⟨fields, quotes⟩ := parsed
  unfold readRecord
  cases fields with
  | none =>
    simp only [bind_ok_iff, csvHead_eq_ok hcols hrow, narrow_eq_ok, require_eq_ok,
      csvQuote_eq_ok hcols hrow, pure_ok_iff]
    constructor
    · rintro ⟨head, hhead, count, hcount, _, hle, quote, hquote, rfl⟩
      exact ⟨head, hhead, by simp, hcount ▸ hle, quote, hquote, rfl⟩
    · rintro ⟨head, hhead, -, hle, quote, hquote, rfl⟩
      obtain ⟨count, hcount, hcountle, -⟩ := contractCount_ok.2 ⟨hle, trivial⟩
      exact ⟨head, hhead, count, hcount, (), hcountle, quote, hquote, rfl⟩
  | some first =>
    simp only [bind_ok_iff, csvHead_eq_ok hcols hrow, ensureConst_eq_ok, narrow_eq_ok,
      require_eq_ok, csvQuote_eq_ok hcols hrow, pure_ok_iff]
    constructor
    · rintro ⟨head, hhead, _, hts, _, hunderlying, _, hprice, _, htick, _, hmultiplier, count,
        hcount, _, hle, quote, hquote, rfl⟩
      have hfirst : row.Head first :=
        ⟨(Bounded.ext hts).symm.trans hhead.ts, hunderlying.symm.trans hhead.underlying,
          hprice.symm.trans hhead.underlyingPrice, htick.symm.trans hhead.tickSize,
          hmultiplier.symm.trans hhead.contractMultiplier⟩
      refine ⟨first, hfirst, ?_, hcount ▸ hle, quote, hquote, rfl⟩
      rintro _ ⟨⟩
      rfl
    · rintro ⟨head, hhead, hsame, hle, quote, hquote, rfl⟩
      obtain rfl := hsame first rfl
      obtain ⟨count, hcount, hcountle, -⟩ := contractCount_ok.2 ⟨hle, trivial⟩
      exact ⟨first, hhead, (), rfl, (), rfl, (), rfl, (), rfl, (), rfl, count, hcount, (), hcountle,
        quote, hquote, rfl⟩

/-- The records of a file, by induction on them; the quotes are appended in order. -/
theorem readRecords_eq_ok {rows : List (TypedRow F)} {records : List (List String)}
    {head : SnapshotHead} {quotes : List (RawQuote F)} {parsed : ParsedCsv F}
    (hcols : cols.Resolves header) (hrows : List.Forall₂ (WritesRow header) rows records)
    (hceiling : (quotes.length : Int) ≤ limits.maxContractsPerSnapshot.value) :
    records.foldlM (readRecord limits step cols) ⟨some head, quotes⟩ = .ok parsed ↔
      (∀ row ∈ rows, row.Head head) ∧
        ((quotes.length + rows.length : Nat) : Int) ≤ limits.maxContractsPerSnapshot.value ∧
        ∃ more, List.Forall₂ TypedRow.Quote rows more ∧ parsed = ⟨some head, quotes ++ more⟩ := by
  induction hrows generalizing quotes with
  | nil =>
    rw [foldlM_nil_ok]
    simp [hceiling, eq_comm]
  | @cons row record rows records hrow hrest ih =>
    rw [foldlM_cons_ok]
    constructor
    · rintro ⟨mid, hmid, hfold⟩
      obtain ⟨head', hhead, hsame, hle, quote, hquote, rfl⟩ := (readRecord_eq_ok hcols hrow).1 hmid
      obtain rfl := hsame head rfl
      obtain ⟨hheads, htotal, more, hmore, rfl⟩ := (ih (by simpa using hle)).1 hfold
      refine ⟨List.forall_mem_cons.2 ⟨hhead, hheads⟩, ?_, quote :: more, .cons hquote hmore, ?_⟩
      · simp only [List.length_append, List.length_cons, List.length_nil] at htotal ⊢
        omega
      · simp
    · rintro ⟨hheads, htotal, more, hmore, rfl⟩
      obtain ⟨hhead, hheads⟩ := List.forall_mem_cons.1 hheads
      obtain ⟨quote, tail, hquote, htail, rfl⟩ := List.forall₂_cons_left_iff.1 hmore
      rw [List.length_cons] at htotal
      have hone : ((quotes.length + 1 : Nat) : Int) ≤ limits.maxContractsPerSnapshot.value := by
        omega
      refine ⟨⟨some head, quotes ++ [quote]⟩, (readRecord_eq_ok hcols hrow).2
        ⟨head, hhead, ?_, hone, quote, hquote, rfl⟩, ?_⟩
      · rintro _ ⟨⟩
        rfl
      · refine (ih (by rw [List.length_append, List.length_singleton]; omega)).2
          ⟨hheads, ?_, tail, htail, by simp⟩
        rw [List.length_append, List.length_singleton]
        omega

/-- A whole file: the first record sets the fields that the others carry too. -/
theorem readRecords_first {rows : List (TypedRow F)} {records : List (List String)}
    {parsed : ParsedCsv F} (hcols : cols.Resolves header)
    (hrows : List.Forall₂ (WritesRow header) rows records) (hnonempty : rows ≠ []) :
    records.foldlM (readRecord limits step cols) ⟨none, []⟩ = .ok parsed ↔
      ∃ head quotes, RowsRead limits rows head quotes ∧ parsed = ⟨some head, quotes⟩ := by
  cases hrows with
  | nil => exact absurd rfl hnonempty
  | @cons row record rows records hrow hrest =>
    rw [foldlM_cons_ok]
    constructor
    · rintro ⟨mid, hmid, hfold⟩
      obtain ⟨head, hhead, -, hle, quote, hquote, rfl⟩ := (readRecord_eq_ok hcols hrow).1 hmid
      obtain ⟨hheads, htotal, more, hmore, rfl⟩ :=
        (readRecords_eq_ok hcols hrest (by simpa using hle)).1 hfold
      refine ⟨head, quote :: more, ⟨List.forall_mem_cons.2 ⟨hhead, hheads⟩, .cons hquote hmore, ?_⟩,
        rfl⟩
      simp only [List.nil_append, List.length_cons, List.length_nil] at htotal ⊢
      omega
    · rintro ⟨head, quotes, ⟨hheads, hquotes, htotal⟩, rfl⟩
      obtain ⟨hhead, hheads⟩ := List.forall_mem_cons.1 hheads
      obtain ⟨quote, tail, hquote, htail, rfl⟩ := List.forall₂_cons_left_iff.1 hquotes
      rw [List.length_cons] at htotal
      have hone : (([] : List (RawQuote F)).length + 1 : Nat) ≤
          limits.maxContractsPerSnapshot.value := by
        rw [List.length_nil]
        omega
      refine ⟨⟨some head, [quote]⟩, (readRecord_eq_ok hcols hrow).2
        ⟨head, hhead, by simp, hone, quote, hquote, rfl⟩, ?_⟩
      refine (readRecords_eq_ok hcols hrest (by simpa using hone)).2
        ⟨hheads, ?_, tail, htail, rfl⟩
      rw [List.length_singleton]
      omega

/-- Parsing a file of the rows of a snapshot reads the rows. -/
theorem parseCsvSnapshot_eq_ok [CsvDecoder] {rows : List (TypedRow F)}
    {records : List (List String)} {bytes : List UInt8} {head : SnapshotHead}
    {quotes : List (RawQuote F)} (hwrites : WritesCsv rows bytes header records)
    (hnonempty : rows ≠ []) :
    parseCsvSnapshot bytes step limits = .ok (head, quotes) ↔ RowsRead limits rows head quotes := by
  have htrim : (CsvDecoder.read bytes).trim = ⟨.ok header, records, none⟩ := by
    have hheader : header.map trimBlanks = header :=
      (List.map_congr_left hwrites.header_trimmed).trans (List.map_id _)
    have hrecords : records.map (·.map trimBlanks) = records :=
      (List.map_congr_left fun record hrecord => (List.map_congr_left
        (hwrites.records_trimmed record hrecord)).trans (List.map_id _)).trans (List.map_id _)
    rw [hwrites.decodes, CsvText.trim]
    simp only [Except.map, hheader, hrecords]
  obtain ⟨row, hrow⟩ := List.exists_mem_of_ne_nil rows hnonempty
  obtain ⟨record, -, hrecord⟩ := Pointwise.exists_right hwrites.rows hrow
  obtain ⟨cols, hheader, hcols⟩ := fromHeader_eq_ok hrecord
  simp only [parseCsvSnapshot, htrim, Except.mapError, ok_bind, hheader, bind_ok_iff,
    readRecords_first hcols hwrites.rows hnonempty, okOr_eq_ok, pure_ok_iff]
  constructor
  · rintro ⟨_, ⟨head', quotes', hread, rfl⟩, _, ⟨⟩, ⟨⟩⟩
    exact hread
  · intro hread
    exact ⟨_, ⟨head, quotes, hread, rfl⟩, head, rfl, rfl⟩

end Records

/-- The bytes of an entry. -/
def DirEntry.size (entry : DirEntry) : Nat :=
  match entry.state with
  | .Regular bytes => bytes.length
  | _ => 0

/-- The entry is a CSV file of the rows of one snapshot. -/
def WritesFile [CsvDecoder] (rows : List (TypedRow F)) (entry : DirEntry) : Prop :=
  ∃ bytes header records, entry.state = .Regular bytes ∧ WritesCsv rows bytes header records

/-- The entries are one CSV file a snapshot; `files` lists them in the order of their names. -/
structure WritesDirectory [CsvDecoder] (snapshots : List (List (TypedRow F)))
    (entries files : List DirEntry) : Prop where
  listed : entries.Perm files
  ordered : files.Pairwise fun a b => a.name < b.name
  files : List.Forall₂ WritesFile snapshots files

/-- The files cross none of the ceilings that bound a directory. -/
structure FilesWithin (limits : ResourceLimits) (files : List DirEntry) : Prop where
  steps : (files.length : Int) ≤ limits.maxSteps.value
  file : ∀ entry ∈ files, (entry.size : Int) ≤ limits.maxFileBytes.value
  decoded : ((files.map DirEntry.size).sum : Nat) ≤ limits.maxDecompressedBytes.value

section Directory

variable [AnalyticFloat F] [CsvDecoder] [DecimalArith] [TypeSizes] [Sha256]
  {limits : ResourceLimits} {loop : CsvFeed.Loop}

/-- One file extends the tape by its snapshot. -/
theorem readFile_eq_ok {rows : List (TypedRow F)} {entry : DirEntry} (k : Nat)
    (loop : CsvFeed.Loop) (hwrites : WritesFile rows entry) (hnonempty : rows ≠ [])
    (hfile : (entry.size : Int) ≤ limits.maxFileBytes.value)
    (hdecoded : loop.decodedBytes.value + entry.size ≤ limits.maxDecompressedBytes.value) :
    ∃ (decodedBytes : Bounded u64) (hashed : List UInt8),
      decodedBytes.value = loop.decodedBytes.value + entry.size ∧
      ∀ loop', CsvFeed.readFile F limits loop (entry, k) = .ok loop' ↔
        ∃ pushed anchored,
          TapeExtends limits k rows loop.buffer loop.anchorTs pushed anchored ∧
          loop' = ⟨pushed, anchored, decodedBytes, hashed⟩ := by
  obtain ⟨bytes, header, records, hstate, hcsv⟩ := hwrites
  have hsize : entry.size = bytes.length := by rw [DirEntry.size, hstate]
  rw [hsize] at hfile hdecoded ⊢
  have hbytes := loop.decodedBytes.nonneg
  have hmax := limits.maxDecompressedBytes.le_max
  have hadd : u64.Contains (loop.decodedBytes.value + (bytes.length : Int)) := by
    refine ⟨?_, by omega⟩
    change 0 ≤ _
    omega
  refine ⟨⟨_, hadd⟩, CsvFeed.hashEntry loop.hashed entry.name bytes, rfl, fun loop' => ?_⟩
  simp only [CsvFeed.readFile, hstate, bind_ok_iff, narrow_eq_ok, require_eq_ok, hfile, true_and,
    exists_const]
  constructor
  · rintro ⟨step, hstep, decoded, hvalue, -, ⟨head, quotes⟩, hparse, snapshot, hsnapshot, pushed,
      hpush, hloop⟩
    obtain rfl : decoded = ⟨_, hadd⟩ := Bounded.ext hvalue
    rw [← pure_ok_iff.1 hloop]
    exact ⟨pushed, _, ⟨step, head, quotes, snapshot, hstep,
      (parseCsvSnapshot_eq_ok hcsv hnonempty).1 hparse, hsnapshot, hpush, rfl⟩, rfl⟩
  · rintro ⟨pushed, _, ⟨step, head, quotes, snapshot, hstep, hread, hsnapshot, hpush, rfl⟩, rfl⟩
    exact ⟨step, hstep, ⟨_, hadd⟩, rfl, hdecoded, (head, quotes),
      (parseCsvSnapshot_eq_ok hcsv hnonempty).2 hread, snapshot, hsnapshot, pushed, hpush, rfl⟩

/-- The files of a directory leave what its snapshots mean, by induction on the snapshots. -/
theorem readFiles_eq_ok {snapshots : List (List (TypedRow F))} {files : List DirEntry} (k : Nat)
    (loop : CsvFeed.Loop) (final : TapeBuffer) (hwrites : List.Forall₂ WritesFile snapshots files)
    (hnonempty : ∀ rows ∈ snapshots, rows ≠ [])
    (hfile : ∀ entry ∈ files, (entry.size : Int) ≤ limits.maxFileBytes.value)
    (hdecoded : loop.decodedBytes.value + ((files.map DirEntry.size).sum : Nat) ≤
      limits.maxDecompressedBytes.value) :
    (∃ last, (files.zipIdx k).foldlM (CsvFeed.readFile F limits) loop = .ok last ∧
        last.buffer = final) ↔
      Materialises limits k snapshots loop.buffer loop.anchorTs final := by
  induction hwrites generalizing k loop with
  | nil =>
    simp only [List.zipIdx_nil, foldlM_nil_ok, Materialises, exists_eq_left']
    exact eq_comm
  | @cons rows entry rest files hrows hrest ih =>
    obtain ⟨hrow, hnonempty⟩ := List.forall_mem_cons.1 hnonempty
    obtain ⟨hentry, hfile⟩ := List.forall_mem_cons.1 hfile
    rw [List.map_cons, List.sum_cons] at hdecoded
    obtain ⟨decodedBytes, hashed, hvalue, hread⟩ := readFile_eq_ok k loop hrows
      hrow hentry (by omega)
    have hnext : ∀ pushed anchored, (CsvFeed.Loop.mk pushed anchored decodedBytes hashed
        ).decodedBytes.value + ((files.map DirEntry.size).sum : Nat) ≤
          limits.maxDecompressedBytes.value := by
      intro pushed anchored
      change decodedBytes.value + _ ≤ _
      omega
    simp only [List.zipIdx_cons, foldlM_cons_ok, hread]
    constructor
    · rintro ⟨last, ⟨_, ⟨pushed, anchored, hextends, rfl⟩, hlast⟩, hfinal⟩
      exact ⟨pushed, anchored, hextends,
        (ih _ _ hnonempty hfile (hnext pushed anchored)).1 ⟨last, hlast, hfinal⟩⟩
    · rintro ⟨pushed, anchored, hextends, hmaterialises⟩
      obtain ⟨last, hlast, hfinal⟩ :=
        (ih _ _ hnonempty hfile (hnext pushed anchored)).2 hmaterialises
      exact ⟨last, ⟨_, ⟨pushed, anchored, hextends, rfl⟩, hlast⟩, hfinal⟩

omit [AnalyticFloat F] [FloatText F] [CsvDecoder] [DecimalArith] [TypeSizes] [Sha256] in
/-- The scan of a directory of regular files lists them all. -/
theorem scan_files (limits : ResourceLimits) (seen : List DirEntry) {entries : List DirEntry}
    (hregular : ∀ entry ∈ entries, ∃ bytes, entry.state = .Regular bytes)
    (hsteps : ((seen.length + entries.length : Nat) : Int) ≤ limits.maxSteps.value) :
    entries.foldlM (CsvFeed.scan limits) seen = .ok (seen ++ entries) := by
  induction entries generalizing seen with
  | nil => rw [List.append_nil]; rfl
  | cons entry entries ih =>
    obtain ⟨⟨bytes, hstate⟩, hregular⟩ := List.forall_mem_cons.1 hregular
    rw [List.length_cons] at hsteps
    have hmax := limits.maxSteps.le_max
    have hlength : ((seen ++ [entry]).length : Int) ≤ limits.maxSteps.value := by
      rw [List.length_append, List.length_singleton]
      omega
    have hcount : u64.Contains (((seen ++ [entry]).length : Nat) : Int) :=
      ⟨Int.natCast_nonneg _, by omega⟩
    have hscan : CsvFeed.scan limits seen entry = .ok (seen ++ [entry]) := by
      simp only [CsvFeed.scan, hstate, bind_ok_iff, narrow_eq_ok, require_eq_ok, pure_ok_iff]
      exact ⟨⟨_, hcount⟩, rfl, (), hlength, trivial⟩
    rw [foldlM_cons_ok]
    refine ⟨_, hscan, ?_⟩
    rw [ih _ hregular (by rw [List.length_append, List.length_singleton]; omega)]
    simp

omit [AnalyticFloat F] [DecimalArith] [TypeSizes] [Sha256] in
/-- Sorting the entries by name lists the files in the order of their names. -/
theorem sort_entries {snapshots : List (List (TypedRow F))} {entries files : List DirEntry}
    (h : WritesDirectory snapshots entries files) :
    entries.mergeSort (fun a b => a.name ≤ b.name) = files := by
  have hperm := (List.mergeSort_perm entries fun a b => a.name ≤ b.name).trans h.listed
  have hnames : (files.map DirEntry.name).Nodup :=
    List.pairwise_map.2 (h.ordered.imp fun hlt => hlt.ne)
  have hsorted : (entries.mergeSort fun a b => a.name ≤ b.name).Pairwise
      fun a b => a.name ≤ b.name := by
    have h := @List.pairwise_mergeSort _ (fun a b : DirEntry => decide (a.name ≤ b.name))
      (fun a b c hab hbc => by simpa using (of_decide_eq_true hab).trans (of_decide_eq_true hbc))
      (fun a b => by simpa using le_total a.name b.name) entries
    exact h.imp of_decide_eq_true
  refine hperm.eq_of_pairwise ?_ hsorted (h.ordered.imp le_of_lt)
  intro a b ha hb hab hba
  exact List.inj_on_of_nodup_map hnames (hperm.mem_iff.1 ha) hb (le_antisymm hab hba)

/-- Opening a directory of the snapshots materialises them and checks their tape. -/
theorem csvFeed_open {directories : Directories} {path : String}
    {snapshots : List (List (TypedRow F))} {entries files : List DirEntry}
    (hpath : directories path = .Directory entries)
    (hwrites : WritesDirectory snapshots entries files) (hwithin : FilesWithin limits files) :
    CsvFeed.open F directories path limits = do
      let last ← files.zipIdx.foldlM (CsvFeed.readFile F limits) .init
      let sha256 := toHex (Sha256.digest last.hashed)
      let tapeMeta ← TapeMeta.fromTape sha256 last.buffer.tape
      return ⟨last.buffer.tape, tapeMeta, path, sha256⟩ := by
  have hregular : ∀ entry ∈ entries, ∃ bytes, entry.state = .Regular bytes := by
    intro entry hentry
    obtain ⟨rows, -, bytes, _, _, hstate, -⟩ :=
      Pointwise.exists_left hwrites.files (hwrites.listed.mem_iff.1 hentry)
    exact ⟨bytes, hstate⟩
  have hscan := scan_files limits [] hregular (by
    rw [List.length_nil, Nat.zero_add, hwrites.listed.length_eq]
    exact hwithin.steps)
  simp only [CsvFeed.open, hpath, hscan, ok_bind, List.nil_append, sort_entries hwrites]

end Directory

end IronCondor
