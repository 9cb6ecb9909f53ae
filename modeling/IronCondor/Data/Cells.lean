import IronCondor.Data.Convert
import IronCondor.Lib.IntegerText

/-! # Cells of the chain files

The Parquet columns are typed and nullable, the CSV cells are text. Both are read into the same
domain types, each by its own functions. -/
namespace IronCondor

open Checked

abbrev i32 : IntRange := .signed 32

/-- The text form of the floating-point numbers; the empty text is none of theirs. -/
class FloatText (F : Type) where
  parse : String → Option F
  parse_empty : parse "" = none

section Shared

/-- Equality of texts up to the case of ASCII letters. -/
def eqIgnoreAsciiCase (a b : String) : Bool :=
  a.toList.map Char.toLower == b.toList.map Char.toLower

/-- `parse_style`. -/
def parseStyle (style : String) : Outcome OptionStyle :=
  if eqIgnoreAsciiCase style "call" then .ok .Call
  else if eqIgnoreAsciiCase style "put" then .ok .Put
  else .error (.Conversion s!"unknown option style {style.quote}, expected \"call\" or \"put\"")

/-- `ensure_const`. -/
def ensureConst {T : Type} [DecidableEq T] [ToString T] (field : String) (step : Int)
    (got want : T) : Outcome Unit :=
  require (got = want)
    (.Conversion s!"inconsistent {field} within step group {step}: {got} vs {want}")

@[simp] theorem ensureConst_eq_ok {T : Type} [DecidableEq T] [ToString T] {field : String}
    {step : Int} {got want : T} {u : Unit} :
    ensureConst field step got want = .ok u ↔ got = want := by
  simp [ensureConst]

end Shared

section Typed

/-- `req_i64`, `req_i32`, `req_str` and `req_f64`. -/
def reqCell {α : Type} (cell : Option α) (row : Nat) (column : String) : Outcome α :=
  okOr cell (.Conversion s!"null value in column {column} at row {row}")

/-- `greek_f64`. -/
def greekF64 {F : Type} [AnalyticFloat F] (cell : Option F) : F :=
  cell.getD AnalyticFloat.zero

/-- `price_cents`. -/
def priceCents (value : Bounded i64) (column : String) : Outcome PriceCents :=
  narrow u64 (.Conversion
    s!"negative {column} {value.value}; money is a non-negative integer cent value") value.value

/-- `count_u32`. -/
def countU32 (value : Bounded i32) (column : String) : Outcome (Bounded u32) :=
  narrow u32 (.Conversion s!"negative {column} {value.value}; a count must be >= 0") value.value

@[simp] theorem reqCell_some {α : Type} {a : α} {row : Nat} {column : String} :
    reqCell (some a) row column = .ok a := rfl

@[simp] theorem priceCents_eq_ok {value : Bounded i64} {column : String} {cents : PriceCents} :
    priceCents value column = .ok cents ↔ cents.value = value.value := by
  simp [priceCents]

@[simp] theorem countU32_eq_ok {value : Bounded i32} {column : String} {count : Bounded u32} :
    countU32 value column = .ok count ↔ count.value = value.value := by
  simp [countU32]

end Typed

section Text

/-- `parse_i64`. -/
def parseI64 (cell column : String) : Outcome (Bounded i64) :=
  okOr (IntegerText.parse i64 cell)
    (.Conversion s!"column {column} value {cell.quote} is not a valid i64")

/-- `parse_u32`. -/
def parseU32 (cell column : String) : Outcome (Bounded u32) :=
  okOr (IntegerText.parse u32 cell)
    (.Conversion s!"column {column} value {cell.quote} is not a valid non-negative count")

/-- `parse_cents`. -/
def parseCents (cell column : String) : Outcome PriceCents :=
  okOr (IntegerText.parse u64 cell) (.Conversion
    (s!"column {column} value {cell.quote} is not integer cents; money is a non-negative " ++
      "integer cent value (dollar floats are rejected)"))

/-- `parse_f64`. -/
def parseF64 {F : Type} [FloatText F] (cell column : String) : Outcome F :=
  okOr (FloatText.parse cell)
    (.Conversion s!"column {column} value {cell.quote} is not a valid number")

@[simp] theorem parseI64_toString {n : Int} {column : String} {b : Bounded i64} :
    parseI64 (toString n) column = .ok b ↔ b.value = n := by
  rw [parseI64, okOr_eq_ok, IntegerText.parse_toString_eq_some]

@[simp] theorem parseU32_toString {n : Int} {column : String} {b : Bounded u32} :
    parseU32 (toString n) column = .ok b ↔ b.value = n := by
  rw [parseU32, okOr_eq_ok, IntegerText.parse_toString_eq_some]

@[simp] theorem parseCents_toString {n : Int} {column : String} {cents : PriceCents} :
    parseCents (toString n) column = .ok cents ↔ cents.value = n := by
  rw [parseCents, okOr_eq_ok, IntegerText.parse_toString_eq_some]

@[simp] theorem parseF64_eq_ok {F : Type} [FloatText F] {cell column : String} {v : F} :
    parseF64 cell column = .ok v ↔ FloatText.parse cell = some v := by
  simp [parseF64]

end Text

end IronCondor
