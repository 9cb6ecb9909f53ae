import IronCondor.Domain.Money
import Std.Data.TreeMap

/-! # Contract identity

`ContractKey` is the map key for per-contract state and the join key between a quote and a
strategy leg. Equality and order are exact: an expiry given in days compares by its exact
decimal value, a resolved expiry by its instant. -/
namespace IronCondor

open Checked
open Std (TransCmp TransOrd LawfulEqOrd)

/-- A decimal number `mantissa / 10 ^ scale`, kept with its spelling. -/
structure Decimal where
  mantissa : Int
  scale : Nat
deriving DecidableEq, Repr

namespace Decimal

def toRat (d : Decimal) : ℚ := d.mantissa / 10 ^ d.scale

/-- The numeric comparison, by cross-multiplication. -/
def cmp (a b : Decimal) : Ordering :=
  compare (a.mantissa * 10 ^ b.scale) (b.mantissa * 10 ^ a.scale)

theorem cmp_eq_compareOn : cmp = compareOn toRat := by
  funext a b
  have ha : (0 : ℚ) < 10 ^ a.scale := by positivity
  have hb : (0 : ℚ) < 10 ^ b.scale := by positivity
  unfold cmp compareOn toRat
  rcases Int.lt_trichotomy (a.mantissa * 10 ^ b.scale) (b.mantissa * 10 ^ a.scale)
    with h | h | h
  · rw [compare_lt_iff_lt.2 h, eq_comm, compare_lt_iff_lt, div_lt_div_iff₀ ha hb]
    exact_mod_cast h
  · rw [compare_eq_iff_eq.2 h, eq_comm, compare_eq_iff_eq, div_eq_div_iff ha.ne' hb.ne']
    exact_mod_cast h
  · rw [compare_gt_iff_gt.2 h, eq_comm, compare_gt_iff_gt, div_lt_div_iff₀ hb ha]
    exact_mod_cast h

end Decimal

/-- The grammar `^[A-Z0-9._]\x7b1,32\x7d$` of a canonical ticker. -/
def tickerGrammar (ticker : String) : Bool :=
  !ticker.isEmpty && ticker.length ≤ 32 &&
    ticker.toList.all fun c => c.isUpper || c.isDigit || c == '.' || c == '_'

/-- A canonical uppercase ticker. -/
@[ext] structure Underlying where
  ticker : String
  grammar : tickerGrammar ticker = true
deriving DecidableEq

namespace Underlying

def new (ticker : String) : Outcome Underlying :=
  if h : tickerGrammar ticker = true then .ok ⟨ticker, h⟩
  else .error (.Conversion
    s!"underlying {ticker.quote} violates the grammar ^[A-Z0-9._]\x7b1,32\x7d$")

@[simp] theorem new_eq_ok {ticker : String} {underlying : Underlying} :
    new ticker = .ok underlying ↔ underlying.ticker = ticker := by
  unfold new
  split_ifs with h
  · rw [Except.ok.injEq, Underlying.ext_iff, eq_comm]
  · constructor
    · nofun
    · rintro rfl
      exact absurd underlying.grammar h

instance : Ord Underlying := ⟨compareOn ticker⟩

instance : TransOrd Underlying := inferInstanceAs (TransCmp (compareOn ticker))

instance : LawfulEqOrd Underlying where
  eq_of_compare h := Underlying.ext (Std.compare_eq_iff_eq.1 h)

end Underlying

/-- The upstream option style. -/
inductive OptionStyle where
  | Call
  | Put
deriving DecidableEq, Repr

instance : Ord OptionStyle := ⟨compareOn OptionStyle.ctorIdx⟩

instance : TransOrd OptionStyle := inferInstanceAs (TransCmp (compareOn OptionStyle.ctorIdx))

instance : LawfulEqOrd OptionStyle where
  eq_of_compare {a b} h := by cases a <;> cases b <;> first | rfl | cases h

/-- An instant in UTC as chrono keeps it: whole seconds since the epoch and a fraction in
nanoseconds. A leap second is a fraction of a second or more past the last second of its minute. -/
@[ext] structure Instant where
  timestamp : Int
  subsecNanos : Nat
  subsecNanos_lt : subsecNanos < 2000000000
  leap : 1000000000 ≤ subsecNanos → timestamp % 60 = 59
deriving DecidableEq, Repr

namespace Instant

/-- `DateTime::from_timestamp_nanos`. -/
def ofNanos (ns : Int) : Instant where
  timestamp := ns / 1000000000
  subsecNanos := (ns % 1000000000).toNat
  subsecNanos_lt := by omega
  leap := by omega

/-- The nanoseconds of `timestamp_nanos_opt`, before its range is checked. -/
def nanos (t : Instant) : Int := t.timestamp * 1000000000 + t.subsecNanos

/-- The instant lies inside a leap second. -/
def IsLeap (t : Instant) : Prop := 1000000000 ≤ t.subsecNanos

instance (t : Instant) : Decidable t.IsLeap := inferInstanceAs (Decidable (_ ≤ _))

@[simp] theorem nanos_ofNanos (ns : Int) : (ofNanos ns).nanos = ns := by
  simp only [nanos, ofNanos]
  omega

@[simp] theorem not_isLeap_ofNanos (ns : Int) : ¬ (ofNanos ns).IsLeap := by
  simp only [IsLeap, ofNanos]
  omega

/-- Only outside a leap second is an instant the one its nanoseconds name. -/
theorem ofNanos_nanos {t : Instant} : ofNanos t.nanos = t ↔ ¬ t.IsLeap := by
  constructor
  · intro h
    rw [← h]
    exact not_isLeap_ofNanos _
  · intro h
    unfold IsLeap at h
    apply Instant.ext
    · simp only [ofNanos, nanos]
      omega
    · simp only [ofNanos, nanos]
      omega

instance : Ord Instant := ⟨compareLex (compareOn timestamp) (compareOn subsecNanos)⟩

instance : TransOrd Instant :=
  inferInstanceAs (TransCmp (compareLex (compareOn timestamp) (compareOn subsecNanos)))

instance : LawfulEqOrd Instant where
  eq_of_compare {a b} h := by
    obtain ⟨hseconds, hnanos⟩ := compareLex_eq_eq.1 h
    exact Instant.ext (Std.compare_eq_iff_eq.1 hseconds) (Std.compare_eq_iff_eq.1 hnanos)

end Instant

/-- The upstream expiration: relative days, or one absolute instant. -/
inductive ExpirationDate where
  | Days (days : Decimal)
  | DateTime (instant : Instant)
deriving DecidableEq, Repr

/-- `expiration_exact_eq`. -/
def expirationExactEq : ExpirationDate → ExpirationDate → Bool
  | .Days a, .Days b => a.cmp b == .eq
  | .DateTime a, .DateTime b => a == b
  | _, _ => false

/-- `expiration_exact_cmp`: days sort before instants. -/
def expirationExactCmp : ExpirationDate → ExpirationDate → Ordering
  | .Days a, .Days b => a.cmp b
  | .DateTime a, .DateTime b => compare a b
  | .Days _, .DateTime _ => .lt
  | .DateTime _, .Days _ => .gt

/-- The variant, the day count and the instant an expiration compares by, in this order. -/
private def expirationRank : ExpirationDate → Nat × ℚ × Instant
  | .Days d => (0, d.toRat, .ofNanos 0)
  | .DateTime t => (1, 0, t)

private theorem expirationExactCmp_eq_compareLex :
    expirationExactCmp = compareLex (compareOn fun e => (expirationRank e).1)
      (compareLex (compareOn fun e => (expirationRank e).2.1)
        (compareOn fun e => (expirationRank e).2.2)) := by
  funext a b
  rcases a with d | t <;> rcases b with d' | t' <;>
    simp [expirationExactCmp, expirationRank, compareLex, compareOn, Decimal.cmp_eq_compareOn]
  all_goals rfl

instance : Ord ExpirationDate := ⟨expirationExactCmp⟩

instance : TransOrd ExpirationDate := by
  change TransCmp expirationExactCmp
  rw [expirationExactCmp_eq_compareLex]
  infer_instance

theorem expirationExactEq_iff {a b : ExpirationDate} :
    expirationExactEq a b = true ↔ expirationExactCmp a b = .eq := by
  cases a <;> cases b <;> simp [expirationExactEq, expirationExactCmp]

/-- The identity of one option contract. -/
structure ContractKey where
  underlying : Underlying
  expiration : ExpirationDate
  strike : PriceCents
  style : OptionStyle
deriving DecidableEq

namespace ContractKey

instance : BEq ContractKey where
  beq a b :=
    a.underlying = b.underlying && a.strike = b.strike && a.style = b.style &&
      expirationExactEq a.expiration b.expiration

def cmp (a b : ContractKey) : Ordering :=
  (compare a.underlying b.underlying).then
    ((expirationExactCmp a.expiration b.expiration).then
      ((compare a.strike b.strike).then (compare a.style b.style)))

instance : Ord ContractKey := ⟨cmp⟩

instance : TransOrd ContractKey :=
  inferInstanceAs (TransCmp (compareLex (compareOn underlying)
    (compareLex (compareOn expiration) (compareLex (compareOn strike) (compareOn style)))))

/-- Equality and order agree, whatever the spelling of an expiry in days. -/
theorem beq_iff_cmp_eq {a b : ContractKey} : (a == b) = true ↔ compare a b = .eq := by
  change (_ && _ && _ && _) = true ↔ cmp a b = .eq
  simp only [cmp, Ordering.then_eq_eq, Std.compare_eq_iff_eq, Bool.and_eq_true,
    decide_eq_true_eq, expirationExactEq_iff]
  tauto

instance : EquivBEq ContractKey where
  rfl := beq_iff_cmp_eq.2 Std.ReflCmp.compare_self
  symm h := beq_iff_cmp_eq.2 (Std.OrientedCmp.eq_symm (beq_iff_cmp_eq.1 h))
  trans h h' := beq_iff_cmp_eq.2 (TransCmp.eq_trans (beq_iff_cmp_eq.1 h) (beq_iff_cmp_eq.1 h'))

/-- `ContractKey::expiration_ns`: only a resolved expiry has an instant. -/
def expirationNs (key : ContractKey) : Outcome (Bounded i64) :=
  match key.expiration with
  | .DateTime instant =>
    narrow i64 (.Conversion s!"expiration {instant.nanos} outside the nanosecond i64 range")
      instant.nanos
  | .Days days => .error (.Conversion (s!"relative expiration Days({days.mantissa}e-{days.scale})"
      ++ " is unresolved — resolved once at tape materialisation"))

/-- The canonical versioned identifier, e.g. `v1:SPX:1750291200000000000:510000:C`. -/
def toContractId (key : ContractKey) : Outcome String := do
  let ns ← key.expirationNs
  let style := match key.style with
    | .Call => "C"
    | .Put => "P"
  return s!"v1:{key.underlying.ticker}:{ns.value}:{key.strike.value}:{style}"

end ContractKey

end IronCondor
