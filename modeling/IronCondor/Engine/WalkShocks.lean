import IronCondor.Bundle.Reader
import IronCondor.Data.SmallMarket
import IronCondor.Engine.Scenario
import IronCondor.Lib.IntegerText
import IronCondor.Lib.Pointwise
import IronCondor.Lib.Sha256

/-! # Walk presets and stress shocks

A simulator walk is a tagged JSON object. The presets build it, and the shocks of a stress test
scale its volatility and shift its drift in place, whatever the walk and whatever else it
carries. -/
namespace IronCondor

open Checked ExceptRun

/-- The `f64` arithmetic of the wire. -/
class WireFloat (F : Type) where
  ofDecimal : Decimal → Option F
  ofInt : Int → F
  isFinite : F → Bool
  isNegative : F → Bool
  mul : F → F → F
  add : F → F → F
  display : F → String

/-- A JSON number. -/
inductive WireNumber (F : Type) where
  | int (n : Int)
  | float (x : F)

/-- A decimal with all digits of its scale. -/
def Decimal.display (d : Decimal) : String :=
  let digits := toString (d.mantissa.natAbs % 10 ^ d.scale)
  let fraction := String.ofList (List.replicate (d.scale - digits.length) '0') ++ digits
  (if d.mantissa < 0 then "-" else "") ++ toString (d.mantissa.natAbs / 10 ^ d.scale) ++
    if d.scale = 0 then "" else "." ++ fraction

section Numbers

variable {F : Type} [WireFloat F]

namespace WireNumber

/-- `Number::as_f64`. -/
def asF64 : WireNumber F → F
  | int n => WireFloat.ofInt n
  | float x => x

/-- `Number::from_f64`. -/
def fromF64 (x : F) : Option (WireNumber F) := if WireFloat.isFinite x then some (.float x) else none

end WireNumber

/-- `Value::as_f64`. -/
def Json.asF64 : Json (WireNumber F) → Option F
  | number n => some n.asF64
  | _ => none

/-- A decimal as a finite float. -/
def finiteF64 (value : Decimal) : Option F := (WireFloat.ofDecimal value).filter WireFloat.isFinite

/-- `num`. -/
def num (value : Decimal) : Outcome (Json (WireNumber F)) := do
  let asF64 : F ← okOr (finiteF64 value)
    (.Conversion s!"walk parameter {value.display} is not a finite f64")
  let number ← okOr (WireNumber.fromF64 asF64)
    (.Conversion s!"walk parameter {value.display} is not a finite f64 number")
  return .number number

end Numbers

/-- A selection of the simulator's walks. -/
inductive WalkPreset where
  | Brownian (dt drift volatility : Decimal)
  | GeometricBrownian (dt drift volatility : Decimal)
  | MeanReverting (dt volatility speed mean : Decimal)
  | JumpDiffusion (dt drift volatility intensity jumpMean jumpVolatility : Decimal)
  | Garch (dt drift volatility alpha beta : Decimal)
  | Heston (dt drift volatility kappa theta xi rho : Decimal)
deriving DecidableEq

namespace WalkPreset

def variantName : WalkPreset → String
  | Brownian .. => "Brownian"
  | GeometricBrownian .. => "GeometricBrownian"
  | MeanReverting .. => "MeanReverting"
  | JumpDiffusion .. => "JumpDiffusion"
  | Garch .. => "Garch"
  | Heston .. => "Heston"

/-- The parameters of a walk, under their names on the wire. -/
def params : WalkPreset → List (String × Decimal)
  | Brownian dt drift volatility
  | GeometricBrownian dt drift volatility =>
    [("dt", dt), ("drift", drift), ("volatility", volatility)]
  | MeanReverting dt volatility speed mean =>
    [("dt", dt), ("volatility", volatility), ("speed", speed), ("mean", mean)]
  | JumpDiffusion dt drift volatility intensity jumpMean jumpVolatility =>
    [("dt", dt), ("drift", drift), ("volatility", volatility), ("intensity", intensity),
      ("jump_mean", jumpMean), ("jump_volatility", jumpVolatility)]
  | Garch dt drift volatility alpha beta =>
    [("dt", dt), ("drift", drift), ("volatility", volatility), ("alpha", alpha), ("beta", beta)]
  | Heston dt drift volatility kappa theta xi rho =>
    [("dt", dt), ("drift", drift), ("volatility", volatility), ("kappa", kappa), ("theta", theta),
      ("xi", xi), ("rho", rho)]

/-- `to_method_json`. -/
def toMethodJson {F : Type} [WireFloat F] (preset : WalkPreset) :
    Outcome (Json (WireNumber F)) := do
  let params ← preset.params.mapM fun param => do
    let number ← num param.2
    return (param.1, number)
  return .object [(preset.variantName, .object params)]

end WalkPreset

/-- A request for a simulator session. -/
structure CreateSessionRequest (F : Type) where
  symbol : String
  steps : Bounded u64
  initialPrice : F
  daysToExpiration : F
  volatility : F
  riskFreeRate : F
  dividendYield : F
  method : Json (WireNumber F)
  timeFrame : String
  chainSize : Option (Bounded u64)
  strikeInterval : Option F
  skewSlope : Option F
  smileCurve : Option F
  spread : Option F
  seed : Option (Bounded u64)

section Shocks

variable {F : Type} [WireFloat F]

/-- `shock_scalar`. -/
def shockScalar (value : Decimal) : Outcome F :=
  okOr (finiteF64 value) (.Conversion s!"stress shock {value.display} is not a finite f64")

/-- `finite`. -/
def finite (value : F) (what : String) : Outcome F :=
  if WireFloat.isFinite value then .ok value
  else .error (.Conversion s!"shocked {what} is not finite ({WireFloat.display value})")

/-- Write the value of a key that an object has. -/
def setField {N : Type} (key : String) (value : Json N) :
    List (String × Json N) → List (String × Json N)
  | [] => []
  | entry :: rest =>
    if entry.1 = key then (key, value) :: rest else entry :: setField key value rest

/-- `shock_method_field`. -/
def shockMethodField (method : Json (WireNumber F)) (field : String) (f : F → F) :
    Outcome (Json (WireNumber F)) :=
  match method with
  | .object [(variantKey, .object params)] =>
    match (params.lookup field).bind Json.asF64 with
    | some current => do
      let shocked ← finite (f current) field
      let number ← okOr (WireNumber.fromF64 shocked)
        (.Conversion s!"shocked walk {field} is not a finite f64 number")
      return .object [(variantKey, .object (setField field (.number number) params))]
    | none => .ok method
  | _ => .ok method

/-- The volatility shock scales the session and its walk. -/
def shockVolatility (session : CreateSessionRequest F) :
    Option Decimal → Outcome (CreateSessionRequest F)
  | none => .ok session
  | some factor => do
    let factor : F ← shockScalar factor
    require (WireFloat.isNegative factor = false)
      (.Conversion s!"walk_volatility_factor must be >= 0, got {WireFloat.display factor}")
    let volatility ← finite (WireFloat.mul session.volatility factor) "session volatility"
    let method ← shockMethodField session.method "volatility" (WireFloat.mul · factor)
    return { session with volatility, method }

/-- The drift shock shifts the walk alone. -/
def shockDrift (session : CreateSessionRequest F) :
    Option Decimal → Outcome (CreateSessionRequest F)
  | none => .ok session
  | some delta => do
    let delta : F ← shockScalar delta
    let method ← shockMethodField session.method "drift" (WireFloat.add · delta)
    return { session with method }

/-- `apply_walk_shocks`. -/
def applyWalkShocks (session : CreateSessionRequest F) (override : ConfigOverride) :
    Outcome (CreateSessionRequest F) := do
  let session ← shockVolatility session override.walkVolatilityFactor
  shockDrift session override.walkDriftDelta

end Shocks

section Meaning

variable {F : Type} [WireFloat F]

/-- The number a walk has under a name. -/
def Json.numberAt (method : Json (WireNumber F)) (field : String) : Option F :=
  match method with
  | .object [(_, .object params)] => (params.lookup field).bind Json.asF64
  | _ => none

/-- A walk with another number under a name. -/
def Json.setNumber (method : Json (WireNumber F)) (field : String) (x : F) : Json (WireNumber F) :=
  match method with
  | .object [(tag, .object params)] =>
    .object [(tag, .object (setField field (.number (.float x)) params))]
  | _ => method

/-- A walk with one of its numbers changed; a walk that lacks it stays as it is. -/
def Json.mapNumber (method : Json (WireNumber F)) (field : String) (f : F → F) :
    Json (WireNumber F) :=
  match method.numberAt field with
  | some x => method.setNumber field (f x)
  | none => method

/-- A session with its volatility scaled. -/
def CreateSessionRequest.scaled (session : CreateSessionRequest F) :
    Option F → CreateSessionRequest F
  | none => session
  | some factor => { session with
      volatility := WireFloat.mul session.volatility factor
      method := session.method.mapNumber "volatility" (WireFloat.mul · factor) }

/-- A session with its drift shifted. -/
def CreateSessionRequest.shifted (session : CreateSessionRequest F) :
    Option F → CreateSessionRequest F
  | none => session
  | some delta => { session with
      method := session.method.mapNumber "drift" (WireFloat.add · delta) }

/-- The shocks of an override as floats that leave a session finite. -/
structure Admits (session : CreateSessionRequest F) (override : ConfigOverride)
    (factor delta : Option F) : Prop where
  factor_eq : override.walkVolatilityFactor.map finiteF64 = factor.map some
  delta_eq : override.walkDriftDelta.map finiteF64 = delta.map some
  scaled : ∀ x ∈ factor, WireFloat.isNegative x = false ∧
    WireFloat.isFinite (WireFloat.mul session.volatility x) = true ∧
    ∀ v ∈ session.method.numberAt "volatility", WireFloat.isFinite (WireFloat.mul v x) = true
  shifted : ∀ y ∈ delta, ∀ v ∈ session.method.numberAt "drift",
    WireFloat.isFinite (WireFloat.add v y) = true

variable {method method' : Json (WireNumber F)} {field : String} {f : F → F}

theorem finite_eq_ok {x y : F} {what : String} :
    finite x what = .ok y ↔ WireFloat.isFinite x = true ∧ x = y := by
  unfold finite
  split_ifs with h <;> simp [h]

theorem lookup_setField {N : Type} {key other : String} {value : Json N}
    {fields : List (String × Json N)} (hne : other ≠ key) :
    (setField key value fields).lookup other = fields.lookup other := by
  induction fields with
  | nil => rfl
  | cons entry rest ih =>
    obtain ⟨name, old⟩ := entry
    unfold setField
    split_ifs with h
    · have hname : (other == name) = false := beq_false_of_ne fun heq => hne (heq.trans h)
      rw [List.lookup_cons, List.lookup_cons, beq_false_of_ne hne, hname]
    · rw [List.lookup_cons, List.lookup_cons, ih]

/-- A shock of one number changes that number, and is refused only when it leaves it infinite. -/
theorem shockMethodField_eq_ok : shockMethodField method field f = .ok method' ↔
    (∀ v ∈ method.numberAt field, WireFloat.isFinite (f v) = true) ∧
      method.mapNumber field f = method' := by
  unfold shockMethodField Json.mapNumber Json.numberAt
  split
  · rename_i tag params
    cases hslot : (params.lookup field).bind Json.asF64 with
    | none => simp
    | some current =>
      simp only [bind_ok_iff, finite_eq_ok, okOr_eq_ok, pure_ok_iff, Option.mem_def,
        Option.some.injEq, forall_eq', Json.setNumber]
      constructor
      · rintro ⟨_, ⟨hfinite, rfl⟩, number, hnumber, rfl⟩
        rw [WireNumber.fromF64, if_pos hfinite] at hnumber
        cases hnumber
        exact ⟨hfinite, rfl⟩
      · rintro ⟨hfinite, rfl⟩
        exact ⟨_, ⟨hfinite, rfl⟩, _, if_pos hfinite, rfl⟩
  · simp

theorem Json.numberAt_setNumber {other : String} (hne : other ≠ field) (x : F) :
    (method.setNumber field x).numberAt other = method.numberAt other := by
  unfold Json.setNumber
  split
  · simp only [Json.numberAt, lookup_setField hne]
  · rfl

theorem Json.numberAt_mapNumber {other : String} (hne : other ≠ field) :
    (method.mapNumber field f).numberAt other = method.numberAt other := by
  unfold Json.mapNumber
  split
  · exact Json.numberAt_setNumber hne _
  · rfl

theorem shockVolatility_eq_ok {session session' : CreateSessionRequest F}
    {value : Option Decimal} : shockVolatility session value = .ok session' ↔
      ∃ factor, value.map finiteF64 = factor.map some ∧
        (∀ x ∈ factor, WireFloat.isNegative x = false ∧
          WireFloat.isFinite (WireFloat.mul session.volatility x) = true ∧
          ∀ v ∈ session.method.numberAt "volatility",
            WireFloat.isFinite (WireFloat.mul v x) = true) ∧ session.scaled factor = session' := by
  cases value with
  | none => simp [shockVolatility, CreateSessionRequest.scaled]
  | some value =>
    simp only [shockVolatility, shockScalar, bind_ok_iff, okOr_eq_ok, require_eq_ok, finite_eq_ok,
      shockMethodField_eq_ok, pure_ok_iff, Option.map_some]
    constructor
    · rintro ⟨x, hx, _, hnonneg, _, ⟨hvolatility, rfl⟩, _, ⟨hscaled, rfl⟩, rfl⟩
      refine ⟨some x, congrArg some hx, fun y hy => ?_, rfl⟩
      cases hy
      exact ⟨hnonneg, hvolatility, hscaled⟩
    · rintro ⟨factor, hfactor, hadmits, rfl⟩
      obtain ⟨x, rfl, hx⟩ := Option.map_eq_some_iff.1 hfactor.symm
      obtain ⟨hnonneg, hvolatility, hscaled⟩ := hadmits x rfl
      exact ⟨x, hx.symm, (), hnonneg, _, ⟨hvolatility, rfl⟩, _, ⟨hscaled, rfl⟩, rfl⟩

theorem shockDrift_eq_ok {session session' : CreateSessionRequest F} {value : Option Decimal} :
    shockDrift session value = .ok session' ↔
      ∃ delta, value.map finiteF64 = delta.map some ∧
        (∀ y ∈ delta, ∀ v ∈ session.method.numberAt "drift",
          WireFloat.isFinite (WireFloat.add v y) = true) ∧ session.shifted delta = session' := by
  cases value with
  | none => simp [shockDrift, CreateSessionRequest.shifted]
  | some value =>
    simp only [shockDrift, shockScalar, bind_ok_iff, okOr_eq_ok, shockMethodField_eq_ok,
      pure_ok_iff, Option.map_some]
    constructor
    · rintro ⟨y, hy, _, ⟨hshifted, rfl⟩, rfl⟩
      refine ⟨some y, congrArg some hy, fun z hz => ?_, rfl⟩
      cases hz
      exact hshifted
    · rintro ⟨delta, hdelta, hadmits, rfl⟩
      obtain ⟨y, rfl, hy⟩ := Option.map_eq_some_iff.1 hdelta.symm
      exact ⟨y, hy.symm, _, ⟨hadmits y rfl, rfl⟩, rfl⟩

/-- Scaling leaves the drift alone. -/
theorem CreateSessionRequest.drift_scaled (session : CreateSessionRequest F) (factor : Option F) :
    (session.scaled factor).method.numberAt "drift" = session.method.numberAt "drift" := by
  cases factor with
  | none => rfl
  | some x => exact Json.numberAt_mapNumber (by decide)

/-- The shocks of an override succeed exactly when they are finite, the factor is not negative and
they leave the session finite; then they scale its volatility and shift its drift. -/
theorem applyWalkShocks_eq_ok {session session' : CreateSessionRequest F}
    {override : ConfigOverride} : applyWalkShocks session override = .ok session' ↔
      ∃ factor delta, Admits session override factor delta ∧
        (session.scaled factor).shifted delta = session' := by
  rw [applyWalkShocks, bind_ok_iff]
  constructor
  · rintro ⟨mid, hscale, hshift⟩
    obtain ⟨factor, hfactor, hscaled, rfl⟩ := shockVolatility_eq_ok.1 hscale
    obtain ⟨delta, hdelta, hshifted, rfl⟩ := shockDrift_eq_ok.1 hshift
    rw [session.drift_scaled] at hshifted
    exact ⟨factor, delta, ⟨hfactor, hdelta, hscaled, hshifted⟩, rfl⟩
  · rintro ⟨factor, delta, hadmits, rfl⟩
    refine ⟨_, shockVolatility_eq_ok.2 ⟨factor, hadmits.factor_eq, hadmits.scaled, rfl⟩,
      shockDrift_eq_ok.2 ⟨delta, hadmits.delta_eq, ?_, rfl⟩⟩
    rw [session.drift_scaled]
    exact hadmits.shifted

end Meaning

section Presets

variable {F : Type} [WireFloat F]

/-- A walk under its tag, with its parameters. -/
def taggedMethod (tag : String) (values : List (String × F)) : Json (WireNumber F) :=
  .object [(tag, .object (values.map fun value => (value.1, .number (.float value.2))))]

/-- A parameter under its name, changed; the other parameters stay as they are. -/
def changeParam (field : String) (f : F → F) (value : String × F) : String × F :=
  if value.1 = field then (value.1, f value.2) else value

/-- One parameter of a walk, shocked: its volatility scaled, its drift shifted. -/
def shockParam (factor delta : Option F) (value : String × F) : String × F :=
  changeParam "drift" (fun v => (delta.map (WireFloat.add v)).getD v)
    (changeParam "volatility" (fun v => (factor.map (WireFloat.mul v)).getD v) value)

/-- The parameters of a preset as finite floats, under their names. -/
def WalkPreset.Values (preset : WalkPreset) (values : List (String × F)) : Prop :=
  List.Forall₂ (fun value param => value.1 = param.1 ∧ finiteF64 param.2 = some value.2) values
    preset.params

theorem num_eq_ok {value : Decimal} {number : Json (WireNumber F)} :
    num value = .ok number ↔ ∃ x, finiteF64 value = some x ∧ .number (.float x) = number := by
  simp only [num, bind_ok_iff, okOr_eq_ok, pure_ok_iff]
  refine exists_congr fun x => and_congr_right fun hx => ?_
  have hfinite : WireFloat.isFinite x = true := (Option.filter_eq_some_iff.1 hx).2
  simp [WireNumber.fromF64, hfinite]

/-- The fields of a walk are its parameters as floats. -/
theorem params_eq_ok {params : List (String × Decimal)}
    {fields : List (String × Json (WireNumber F))} :
    (params.mapM fun param => do
      let number ← num param.2
      return (param.1, number)) = (.ok fields : Outcome _) ↔
      ∃ values : List (String × F), List.Forall₂ (fun value param =>
          value.1 = param.1 ∧ finiteF64 param.2 = some value.2) values params ∧
        values.map (fun value => (value.1, .number (.float value.2))) = fields := by
  simp only [Pointwise.mapM_ok_iff, bind_ok_iff, num_eq_ok, pure_ok_iff]
  constructor
  · intro h
    induction h with
    | nil => exact ⟨[], .nil, rfl⟩
    | cons hfield _ ih =>
      obtain ⟨_, ⟨x, hx, rfl⟩, rfl⟩ := hfield
      obtain ⟨values, hvalues, rfl⟩ := ih
      exact ⟨(_, x) :: values, .cons ⟨rfl, hx⟩ hvalues, rfl⟩
  · rintro ⟨values, hvalues, rfl⟩
    rw [List.forall₂_map_right_iff]
    exact hvalues.flip.imp fun param value hvalue =>
      ⟨_, ⟨value.2, hvalue.2, rfl⟩, by rw [hvalue.1]⟩

/-- A preset is built exactly when its parameters are finite floats, as the tagged walk of them. -/
theorem WalkPreset.toMethodJson_eq_ok {preset : WalkPreset} {method : Json (WireNumber F)} :
    preset.toMethodJson = .ok method ↔
      ∃ values, preset.Values values ∧ taggedMethod preset.variantName values = method := by
  simp only [toMethodJson, bind_ok_iff, pure_ok_iff, params_eq_ok]
  constructor
  · rintro ⟨_, ⟨values, hvalues, rfl⟩, rfl⟩
    exact ⟨values, hvalues, rfl⟩
  · rintro ⟨values, hvalues, rfl⟩
    exact ⟨_, ⟨values, hvalues, rfl⟩, rfl⟩

/-- The names of a preset's parameters are distinct. -/
theorem WalkPreset.params_nodup (preset : WalkPreset) : (preset.params.map Prod.fst).Nodup := by
  cases preset <;> simp only [params, List.map_cons, List.map_nil] <;> decide

omit [WireFloat F] in
theorem changeParam_id (value : String × F) (field : String) :
    changeParam field (fun v => v) value = value := by
  rw [changeParam]
  exact ite_self _

omit [WireFloat F] in
theorem changeParam_names (values : List (String × F)) (field : String) (f : F → F) :
    (values.map (changeParam field f)).map Prod.fst = values.map Prod.fst := by
  rw [List.map_map]
  refine List.map_congr_left fun value _ => ?_
  rw [Function.comp_apply, changeParam]
  split_ifs <;> rfl

omit [WireFloat F] in
theorem changeParam_absent {values : List (String × F)} {field : String}
    (h : field ∉ values.map Prod.fst) (f : F → F) : values.map (changeParam field f) = values := by
  refine (List.map_congr_left fun value hvalue => if_neg ?_).trans (List.map_id _)
  rintro rfl
  exact h (List.mem_map_of_mem hvalue)

omit [WireFloat F] in
/-- The parameter of a name, changed in its field. -/
theorem setField_params {values : List (String × F)} (hnodup : (values.map Prod.fst).Nodup)
    {field : String} {x : F} (hx : values.lookup field = some x) (f : F → F) :
    setField field (.number (.float (f x))) (values.map fun value =>
        (value.1, (.number (.float value.2) : Json (WireNumber F)))) =
      (values.map (changeParam field f)).map fun value => (value.1, .number (.float value.2)) := by
  induction values with
  | nil => cases hx
  | cons value values ih =>
    rw [List.map_cons, List.nodup_cons] at hnodup
    rw [List.lookup_cons] at hx
    rw [List.map_cons, setField, List.map_cons, List.map_cons]
    by_cases hname : value.1 = field
    · subst hname
      rw [beq_self_eq_true] at hx
      cases hx
      rw [if_pos rfl, changeParam_absent hnodup.1, changeParam, if_pos rfl]
    · rw [beq_false_of_ne (Ne.symm hname)] at hx
      rw [if_neg hname, ih hnodup.2 hx, changeParam, if_neg hname]

theorem numberAt_tagged (tag : String) (values : List (String × F)) (field : String) :
    (taggedMethod tag values).numberAt field = values.lookup field := by
  change (List.lookup field _).bind Json.asF64 = _
  induction values with
  | nil => rfl
  | cons value values ih =>
    rw [List.map_cons, List.lookup_cons, List.lookup_cons]
    cases field == value.1 with
    | true => rfl
    | false => exact ih

/-- A tagged walk with one number changed is the tagged walk of the parameters with that one
changed. -/
theorem mapNumber_tagged (tag : String) {values : List (String × F)}
    (hnodup : (values.map Prod.fst).Nodup) (field : String) (f : F → F) :
    (taggedMethod tag values).mapNumber field f =
      taggedMethod tag (values.map (changeParam field f)) := by
  unfold Json.mapNumber
  rw [numberAt_tagged]
  cases hx : values.lookup field with
  | some x =>
    exact congrArg (fun fields => Json.object [(tag, .object fields)]) (setField_params hnodup hx f)
  | none =>
    rw [changeParam_absent]
    exact fun hmem => by
      obtain ⟨value, hvalue, rfl⟩ := List.mem_map.1 hmem
      exact absurd (List.lookup_eq_none_iff.1 hx value hvalue) (by simp)

/-- The shocks of a session that walks tagged parameters: its volatility is scaled, and so is that
of the walk; the drift of the walk is shifted; the other parameters stay as they are. -/
theorem shocked_tagged {session : CreateSessionRequest F} {tag : String}
    {values : List (String × F)} (hmethod : session.method = taggedMethod tag values)
    (hnodup : (values.map Prod.fst).Nodup) (factor delta : Option F) :
    (session.scaled factor).shifted delta = { session with
      volatility := (factor.map (WireFloat.mul session.volatility)).getD session.volatility
      method := taggedMethod tag (values.map (shockParam factor delta)) } := by
  have hscaled : session.scaled factor = { session with
      volatility := (factor.map (WireFloat.mul session.volatility)).getD session.volatility
      method := taggedMethod tag (values.map
        (changeParam "volatility" fun v => (factor.map (WireFloat.mul v)).getD v)) } := by
    cases factor with
    | none =>
      have hsame : values.map (changeParam "volatility" fun v =>
          ((none : Option F).map (WireFloat.mul v)).getD v) = values :=
        (List.map_congr_left fun value _ => changeParam_id value _).trans (List.map_id _)
      rw [hsame, ← hmethod]
      rfl
    | some x =>
      rw [CreateSessionRequest.scaled, hmethod, mapNumber_tagged _ hnodup]
      rfl
  rw [hscaled]
  cases delta with
  | none =>
    have hsame : values.map (shockParam factor none) = values.map
        (changeParam "volatility" fun v => (factor.map (WireFloat.mul v)).getD v) :=
      List.map_congr_left fun value _ => changeParam_id _ _
    rw [hsame]
    rfl
  | some y =>
    rw [CreateSessionRequest.shifted, mapNumber_tagged _ (by rwa [changeParam_names]),
      List.map_map]
    rfl

/-- The shocks of a preset: whichever walk it selects, a session that walks it is shocked exactly
when the shocks are finite, the factor is not negative and nothing becomes infinite; then the
volatility is scaled, in the session and in the walk, the drift is shifted when the walk has one,
and every other parameter is kept. -/
theorem WalkPreset.applyWalkShocks_iff {preset : WalkPreset} {session : CreateSessionRequest F}
    (hmethod : preset.toMethodJson = .ok session.method) (override : ConfigOverride) :
    ∃ values, preset.Values values ∧
      session.method = taggedMethod preset.variantName values ∧
      ∀ session', applyWalkShocks session override = .ok session' ↔
        ∃ factor delta, Admits session override factor delta ∧ session' = { session with
          volatility := (factor.map (WireFloat.mul session.volatility)).getD session.volatility
          method := taggedMethod preset.variantName (values.map (shockParam factor delta)) } := by
  obtain ⟨values, hvalues, hmethod⟩ := WalkPreset.toMethodJson_eq_ok.1 hmethod
  have hnames : values.map Prod.fst = preset.params.map Prod.fst :=
    Pointwise.map_eq hvalues fun _ _ _ hvalue => hvalue.1
  have hnodup : (values.map Prod.fst).Nodup := hnames ▸ preset.params_nodup
  refine ⟨values, hvalues, hmethod.symm, fun session' => ?_⟩
  simp only [applyWalkShocks_eq_ok, shocked_tagged hmethod.symm hnodup]
  refine exists_congr fun factor => exists_congr fun delta => and_congr_right fun _ => eq_comm

end Presets

section Batches

variable {F : Type} [WireFloat F]

/-- How a session request is kept as text. -/
structure SessionText (F : Type) where
  decode : String → Option (CreateSessionRequest F)
  encode : CreateSessionRequest F → String

/-- The seed and the shocks of a session kept as text. -/
abbrev SessionText.walk (text : SessionText F) : SessionWalk where
  withSeed session seed :=
    match text.decode session with
    | some request => text.encode { request with seed := some seed }
    | none => session
  applyWalkShocks session override :=
    match text.decode session with
    | some request => do
      let request ← applyWalkShocks request override
      return text.encode request
    | none => .ok session

theorem SessionText.walk_shocks {text : SessionText F} {session session' : String}
    {request : CreateSessionRequest F} {seed : Bounded u64} {override : ConfigOverride}
    (hsession : text.decode session = some request)
    (htext : text.decode (text.encode { request with seed := some seed }) =
      some { request with seed := some seed }) :
    text.walk.applyWalkShocks (text.walk.withSeed session seed) override = .ok session' ↔
      ∃ request', IronCondor.applyWalkShocks { request with seed := some seed } override =
        .ok request' ∧ text.encode request' = session' := by
  have hseeded : text.walk.withSeed session seed =
      text.encode { request with seed := some seed } := by
    change (match text.decode session with
      | some request => text.encode { request with seed := some seed }
      | none => session) = _
    rw [hsession]
  rw [hseeded]
  change (match text.decode (text.encode { request with seed := some seed }) with
    | some request => do
      let request ← IronCondor.applyWalkShocks request override
      return text.encode request
    | none => .ok _) = Except.ok session' ↔ _
  rw [htext]
  simp only [bind_ok_iff, pure_ok_iff]

/-- The override of a run is found by its position: `count` replicates of each. -/
theorem ScenarioParams.runs_getElem? (params : ScenarioParams) (k : Nat) :
    params.runs[k]? = if 0 < params.count.value.toNat then
      params.overrides[k / params.count.value.toNat]? else none := by
  unfold runs
  generalize params.count.value.toNat = count
  split_ifs with hpos
  · induction params.overrides generalizing k with
    | nil => rfl
    | cons override overrides ih =>
      rw [List.flatMap_cons]
      by_cases hk : k < count
      · rw [List.getElem?_append_left (by rwa [List.length_replicate]),
          List.getElem?_replicate, if_pos hk, Nat.div_eq_of_lt hk]
        rfl
      · have hdiv : k / count = (k - count) / count + 1 := Nat.div_eq_sub_div hpos (by omega)
        rw [List.getElem?_append_right (by rw [List.length_replicate]; omega),
          List.length_replicate, ih, hdiv, List.getElem?_cons_succ]
  · obtain rfl : count = 0 := by omega
    simp

/-- The runs of a batch over a simulator source, the run at position `k` made from the override at
`k / count`: it walks the session of the base under a data seed of its own, shocked in a stress
test. -/
structure SessionsDerived [Sha256] (text : SessionText F) (params : ScenarioParams)
    (base : BacktestConfig) (spec : SimulatorSourceSpec) (request : CreateSessionRequest F)
    (configs : List BacktestConfig) : Prop where
  length : configs.length = params.overrides.length * params.count.value.toNat
  derived : ∀ (k : Nat) (config : BacktestConfig), configs[k]? = some config →
    ∃ (i : Bounded u32) (override : ConfigOverride) (factor delta : Option F), i.value = k ∧
      params.overrides[k / params.count.value.toNat]? = some override ∧
      Admits { request with seed := some (childDataSeed params.baseSeed i) } override factor delta ∧
      (params.kind ≠ .StressTest → factor = none ∧ delta = none) ∧
      config = { base with
        seed := override.seed.getD (childSeed params.baseSeed i)
        dataSource := .Simulator { spec with
          dataSeed := childDataSeed params.baseSeed i
          session := text.encode ((CreateSessionRequest.scaled
            { request with seed := some (childDataSeed params.baseSeed i) } factor).shifted delta)
          tapeSha256 := "" } }

/-- The sessions of a batch over a simulator source: every run has its own seeds and the shocks of
its own override, and nothing of the base is lost. -/
theorem batch_sessions [Sha256] {text : SessionText F} {params : ScenarioParams}
    {base : BacktestConfig} {spec : SimulatorSourceSpec} {request : CreateSessionRequest F}
    {configs : List BacktestConfig} (hbase : base.dataSource = .Simulator spec)
    (hsession : text.decode spec.session = some request)
    (htext : ∀ seed, text.decode (text.encode { request with seed := some seed }) =
      some { request with seed := some seed })
    (h : @expand _ text.walk params base = .ok configs) :
    SessionsDerived text params base spec request configs := by
  let _ := text.walk
  have hshocks : params.kind = .StressTest ∨ ∀ override ∈ params.overrides, ¬ override.Shocks := by
    simp only [expand, bind_ok_iff, require_eq_ok] at h
    obtain ⟨_, hshocks, -⟩ := h
    exact hshocks
  obtain ⟨-, hlength, hall⟩ := expand_eq_ok h
  constructor
  · rw [hlength, ScenarioParams.runs, List.length_flatMap]
    simp
  · intro k config hconfig
    have hlt : k < params.runs.length := hlength ▸ (List.getElem?_eq_some_iff.1 hconfig).1
    obtain ⟨override, hoverride⟩ : ∃ override, params.runs[k]? = some override :=
      ⟨_, List.getElem?_eq_getElem hlt⟩
    obtain ⟨i, found, hi, hfound, hderive⟩ := hall k override hoverride
    cases hconfig.symm.trans hfound
    rw [ScenarioParams.runs_getElem?] at hoverride
    split_ifs at hoverride with hpos
    simp only [deriveConfig, hbase, bind_ok_iff, pure_ok_iff] at hderive
    obtain ⟨session, hshocked, rfl⟩ := hderive
    obtain ⟨_, hrequest, rfl⟩ := (SessionText.walk_shocks hsession (htext _)).1 hshocked
    obtain ⟨factor, delta, hadmits, rfl⟩ := applyWalkShocks_eq_ok.1 hrequest
    refine ⟨i, override, factor, delta, hi, hoverride, hadmits, fun hkind => ?_, rfl⟩
    have hnone := hshocks.resolve_left hkind override (List.mem_of_getElem? hoverride)
    rw [ConfigOverride.Shocks, not_or, Bool.not_eq_true, Bool.not_eq_true, Option.isSome_eq_false_iff,
      Option.isSome_eq_false_iff, Option.isNone_iff_eq_none, Option.isNone_iff_eq_none] at hnone
    have hfactor := hadmits.factor_eq
    have hdelta := hadmits.delta_eq
    rw [hnone.1, Option.map_none, eq_comm, Option.map_eq_none_iff] at hfactor
    rw [hnone.2, Option.map_none, eq_comm, Option.map_eq_none_iff] at hdelta
    exact ⟨hfactor, hdelta⟩

end Batches

namespace SmallWalk

open SmallMarket

/-- Exact arithmetic, where every number is finite. -/
local instance exactFloat : WireFloat ℚ where
  ofDecimal d := some d.toRat
  ofInt n := n
  isFinite _ := true
  isNegative x := decide (x < 0)
  mul x y := x * y
  add x y := x + y
  display x := toString x

local instance sha256 : Sha256 := ⟨Fips180.sha256⟩

def preset : WalkPreset := .GeometricBrownian ⟨4, 3⟩ ⟨5, 2⟩ ⟨25, 2⟩

def values : List (String × ℚ) :=
  [("dt", Decimal.toRat ⟨4, 3⟩), ("drift", Decimal.toRat ⟨5, 2⟩),
    ("volatility", Decimal.toRat ⟨25, 2⟩)]

def request : CreateSessionRequest ℚ where
  symbol := "SPX"
  steps := lit 30
  initialPrice := 5100
  daysToExpiration := 30
  volatility := 1 / 4
  riskFreeRate := 0
  dividendYield := 0
  method := taggedMethod "GeometricBrownian" values
  timeFrame := "Day"
  chainSize := none
  strikeInterval := none
  skewSlope := none
  smileCurve := none
  spread := none
  seed := none

/-- The volatility doubled, and a drift that comes to nothing. -/
def shock : ConfigOverride := ⟨none, some ⟨2, 0⟩, some ⟨-5, 2⟩⟩

theorem preset_request : preset.toMethodJson = .ok request.method :=
  WalkPreset.toMethodJson_eq_ok.2
    ⟨values, .cons ⟨rfl, rfl⟩ (.cons ⟨rfl, rfl⟩ (.cons ⟨rfl, rfl⟩ .nil)), rfl⟩

/-- The shocked walk of the small request. -/
theorem applyWalkShocks_iff_small : ∃ values : List (String × ℚ), preset.Values values ∧
    request.method = taggedMethod preset.variantName values ∧
    ∀ session', applyWalkShocks request shock = .ok session' ↔
      ∃ factor delta, Admits request shock factor delta ∧ session' = { request with
        volatility := (factor.map (WireFloat.mul request.volatility)).getD request.volatility
        method := taggedMethod preset.variantName (values.map (shockParam factor delta)) } :=
  WalkPreset.applyWalkShocks_iff preset_request shock

/-- The small request under any seed, kept as the text of its seed. -/
def text : SessionText ℚ where
  decode session := (IntegerText.parse u64 session).map fun seed =>
    { request with seed := some seed }
  encode session := toString ((session.seed.map Bounded.value).getD 0)

theorem text_seeded (seed : Bounded u64) :
    text.decode (text.encode { request with seed := some seed }) =
      some { request with seed := some seed } :=
  congrArg (Option.map _) (IntegerText.parse_toString_eq_some.2 rfl)

def base : BacktestConfig :=
  { config .Naive with
    dataSource := .Simulator ⟨"0", "http://localhost:7070", lit 0, "", none⟩ }

def stress : ScenarioParams := ⟨.StressTest, lit 7, lit 2, [shock, .default]⟩

/-- Four runs: two are shocked, and two are not. -/
theorem batch_sessions_small : ∃ configs : List BacktestConfig,
    @expand _ text.walk stress base = .ok configs ∧ SessionsDerived text stress base
      ⟨"0", "http://localhost:7070", lit 0, "", none⟩ { request with seed := some (lit 0) }
      configs := by
  obtain ⟨configs, h⟩ := exists_eq_ok (r := @expand _ text.walk stress base) (by decide +kernel)
  exact ⟨configs, h, batch_sessions rfl (text_seeded (lit 0)) (fun seed => text_seeded seed) h⟩

end SmallWalk

end IronCondor
