import IronCondor.Error

/-! # Digests

The upstream hash and serialiser, and the lowercase hex form every identity is written in. -/
namespace IronCondor

/-- The upstream SHA-256. -/
class Sha256 where
  digest : List UInt8 → List UInt8

/-- The upstream JSON encoding of a record. -/
class SerdeJson (α : Type) where
  toVec : α → Except String (List UInt8)

/-- The two hex digits of a byte. -/
def hexByte (byte : UInt8) : List Char :=
  [Nat.digitChar (byte.toNat / 16), Nat.digitChar (byte.toNat % 16)]

/-- `to_hex`. -/
def toHex (bytes : List UInt8) : String := String.ofList (bytes.flatMap hexByte)

theorem digitChar_injective : ∀ m < 16, ∀ n < 16, Nat.digitChar m = Nat.digitChar n → m = n := by
  decide

theorem hexByte_injective {a b : UInt8} (h : hexByte a = hexByte b) : a = b := by
  have ha := a.toNat_lt
  have hb := b.toNat_lt
  obtain ⟨hhigh, hlow, -⟩ := List.cons_eq_cons.1 h |>.imp_right List.cons_eq_cons.1
  have hdiv := digitChar_injective _ (by omega) _ (by omega) hhigh
  have hmod := digitChar_injective _ (by omega) _ (by omega) hlow
  exact UInt8.toNat_inj.1 (by omega)

/-- The hex form determines the bytes. -/
theorem toHex_injective {a b : List UInt8} (h : toHex a = toHex b) : a = b := by
  have hchars : a.flatMap hexByte = b.flatMap hexByte := String.ofList_injective h
  clear h
  induction a generalizing b with
  | nil =>
    cases b with
    | nil => rfl
    | cons byte b => cases hchars
  | cons byte a ih =>
    cases b with
    | nil => cases hchars
    | cons byte' b =>
      rw [List.flatMap_cons, List.flatMap_cons] at hchars
      obtain ⟨hfirst, hrest⟩ := List.append_inj hchars rfl
      rw [hexByte_injective hfirst, ih hrest]

end IronCondor
