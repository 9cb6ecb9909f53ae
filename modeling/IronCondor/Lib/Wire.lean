import IronCondor.Lib.Fold

/-! # Byte encodings that delimit themselves

A concatenation of parts is read back part by part when each part tells where it ends: by its
width, by a length before it, or by a terminator after it. -/
namespace Wire

open Checked ExceptRun

section Integers

/-- A number in `n` bytes, the low one first. -/
def leBytes : Nat → Nat → List UInt8
  | 0, _ => []
  | n + 1, x => UInt8.ofNat x :: leBytes n (x / 256)

/-- A signed or unsigned integer in `n` bytes, the low one first. -/
def leInt (n : Nat) (x : Int) : List UInt8 := leBytes n (x % 256 ^ n).toNat

@[simp] theorem length_leBytes (n x : Nat) : (leBytes n x).length = n := by
  induction n generalizing x with
  | zero => rfl
  | succ n ih => rw [leBytes, List.length_cons, ih]

variable {s t : List UInt8}

theorem leBytes_append_inj {n x y : Nat} (hx : x < 256 ^ n) (hy : y < 256 ^ n)
    (h : leBytes n x ++ s = leBytes n y ++ t) : x = y ∧ s = t := by
  induction n generalizing x y with
  | zero =>
    rw [pow_zero, Nat.lt_one_iff] at hx hy
    exact ⟨hx.trans hy.symm, h⟩
  | succ n ih =>
    simp only [leBytes, List.cons_append, List.cons.injEq] at h
    obtain ⟨hlow, hrest⟩ := h
    rw [pow_succ] at hx hy
    obtain ⟨hhigh, hst⟩ := ih (by omega) (by omega) hrest
    have hbyte := congrArg UInt8.toNat hlow
    simp only [UInt8.toNat_ofNat'] at hbyte
    exact ⟨by omega, hst⟩

/-- An integer of a range that fits in `n` bytes is read back. -/
theorem leInt_append_inj {r : IntRange} {n : Nat} (hr : r.max - r.min < 256 ^ n)
    {a b : Bounded r} (h : leInt n a.value ++ s = leInt n b.value ++ t) : a = b ∧ s = t := by
  have hpos : (0 : Int) < 256 ^ n := by positivity
  have hfits : ∀ x : Int, (x % 256 ^ n).toNat < 256 ^ n := by
    intro x
    have hlt := Int.emod_lt_of_pos x hpos
    have hcast : ((256 ^ n : Nat) : Int) = 256 ^ n := by push_cast; rfl
    omega
  obtain ⟨hmod, hst⟩ := leBytes_append_inj (hfits a.value) (hfits b.value) h
  have ha := Int.emod_nonneg a.value hpos.ne'
  have hb := Int.emod_nonneg b.value hpos.ne'
  have hdvd : (256 ^ n : Int) ∣ a.value - b.value := by
    apply Int.dvd_of_emod_eq_zero
    rw [Int.sub_emod]
    have hsame : a.value % 256 ^ n = b.value % 256 ^ n := by omega
    rw [hsame, Int.sub_self, Int.zero_emod]
  have hle := a.le_max
  have hle' := b.le_max
  have hge := a.min_le
  have hge' := b.min_le
  have hzero := Int.eq_zero_of_abs_lt_dvd hdvd (by rw [abs_lt]; constructor <;> omega)
  exact ⟨Bounded.ext (by omega), hst⟩

end Integers

section Strings

variable {a b s t : List UInt8}

/-- Bytes behind their length. -/
def prefixed (n : Nat) (bytes : List UInt8) : List UInt8 := leBytes n bytes.length ++ bytes

theorem prefixed_append_inj {n : Nat} (ha : a.length < 256 ^ n) (hb : b.length < 256 ^ n)
    (h : prefixed n a ++ s = prefixed n b ++ t) : a = b ∧ s = t := by
  rw [prefixed, prefixed, List.append_assoc, List.append_assoc] at h
  obtain ⟨hlength, hrest⟩ := leBytes_append_inj ha hb h
  exact List.append_inj hrest hlength

/-- Bytes before a terminator they do not contain. -/
theorem terminated_append_inj {z : UInt8} (ha : z ∉ a) (hb : z ∉ b)
    (h : a ++ z :: s = b ++ z :: t) : a = b ∧ s = t := by
  induction a generalizing b with
  | nil =>
    cases b with
    | nil => exact ⟨rfl, (List.cons.inj h).2⟩
    | cons y b =>
      apply absurd _ hb
      rw [(List.cons.inj h).1]
      exact List.mem_cons_self
  | cons x a ih =>
    cases b with
    | nil =>
      apply absurd _ ha
      rw [← (List.cons.inj h).1]
      exact List.mem_cons_self
    | cons y b =>
      obtain ⟨hxy, hrest⟩ := List.cons.inj h
      obtain ⟨hab, hst⟩ := ih (fun hz => ha (List.mem_cons_of_mem _ hz))
        (fun hz => hb (List.mem_cons_of_mem _ hz)) hrest
      exact ⟨by rw [hxy, hab], hst⟩

/-- The listing of a byte array is the list under it. -/
theorem byteArray_toList (bytes : ByteArray) : bytes.toList = bytes.data.toList := by
  have hloop : ∀ i r, ByteArray.toList.loop bytes i r = r.reverse ++ bytes.data.toList.drop i := by
    intro i r
    fun_induction ByteArray.toList.loop bytes i r with
    | case1 i r hi ih =>
      have hlength : i < bytes.data.toList.length := hi
      have hget : bytes.get! i = bytes.data.toList[i] := getElem!_pos bytes.data i hi
      rw [ih, hget, List.drop_eq_getElem_cons hlength, List.reverse_cons, List.append_assoc]
      rfl
    | case2 i r hi =>
      have hlength : bytes.data.toList.length ≤ i := Nat.not_lt.1 hi
      rw [List.drop_eq_nil_of_le hlength, List.append_nil]
  exact hloop 0 []

/-- The UTF-8 bytes of a text tell the text. -/
theorem utf8_injective {text text' : String} (h : text.toUTF8.toList = text'.toUTF8.toList) :
    text = text' := by
  rw [byteArray_toList, byteArray_toList] at h
  exact String.toByteArray_inj.1 (ByteArray.ext (Array.toList_inj.1 h))

end Strings

section Sequences

variable {ε α β : Type} {R : α → List β → Prop} {S : α → α → Prop} {l l' : List α}
  {parts parts' : List (List β)}

/-- A run whose every step appends one encoding appends the encodings of its inputs. -/
theorem foldlM_append_iff {f : List β → α → Except ε (List β)} {s t : List β}
    (hstep : ∀ a ∈ l, ∀ s t, f s a = .ok t ↔ ∃ bytes, R a bytes ∧ t = s ++ bytes) :
    l.foldlM f s = .ok t ↔ ∃ parts, List.Forall₂ R l parts ∧ t = s ++ parts.flatten := by
  induction l generalizing s with
  | nil =>
    simp only [foldlM_nil_ok, List.forall₂_nil_left_iff, exists_eq_left, List.flatten_nil,
      List.append_nil]
    exact eq_comm
  | cons a l ih =>
    obtain ⟨hfirst, hrest⟩ := List.forall_mem_cons.1 hstep
    have hl : ∀ s, l.foldlM f s = .ok t ↔ ∃ parts, List.Forall₂ R l parts ∧
        t = s ++ parts.flatten := fun s => ih hrest
    simp only [foldlM_cons_ok, hfirst, hl, List.forall₂_cons_left_iff]
    constructor
    · rintro ⟨_, ⟨bytes, hbytes, rfl⟩, parts, hparts, rfl⟩
      exact ⟨bytes :: parts, ⟨bytes, parts, hbytes, hparts, rfl⟩, by simp⟩
    · rintro ⟨_, ⟨bytes, parts, hbytes, hparts, rfl⟩, rfl⟩
      exact ⟨s ++ bytes, ⟨bytes, hbytes, rfl⟩, parts, hparts, by simp⟩

/-- The encodings of `R` delimit themselves, and related inputs are all they tell. -/
def Delimits (R : α → List β → Prop) (S : α → α → Prop) : Prop :=
  ∀ a a' bytes bytes' s t, R a bytes → R a' bytes' → bytes ++ s = bytes' ++ t → S a a' ∧ s = t

/-- A sequence of known length is read back entry by entry. -/
theorem Delimits.counted (hR : Delimits R S) (h : List.Forall₂ R l parts)
    (h' : List.Forall₂ R l' parts') (hlength : l.length = l'.length) {s t : List β}
    (heq : parts.flatten ++ s = parts'.flatten ++ t) : List.Forall₂ S l l' ∧ s = t := by
  induction h generalizing l' parts' with
  | nil =>
    cases h' with
    | nil => exact ⟨.nil, heq⟩
    | cons _ _ => cases hlength
  | cons hfirst hrest ih =>
    cases h' with
    | nil => cases hlength
    | cons hfirst' hrest' =>
      rw [List.flatten_cons, List.flatten_cons, List.append_assoc, List.append_assoc] at heq
      obtain ⟨hhead, heq⟩ := hR _ _ _ _ _ _ hfirst hfirst' heq
      obtain ⟨htail, hst⟩ := ih hrest' (Nat.succ_injective hlength) heq
      exact ⟨.cons hhead htail, hst⟩

/-- A sequence with nothing after it is read back whatever its length, when no entry is empty. -/
theorem Delimits.stream (hR : Delimits R S) (hne : ∀ a bytes, R a bytes → bytes ≠ [])
    (h : List.Forall₂ R l parts) (h' : List.Forall₂ R l' parts')
    (heq : parts.flatten = parts'.flatten) : List.Forall₂ S l l' := by
  induction h generalizing l' parts' with
  | nil =>
    cases h' with
    | nil => exact .nil
    | cons hfirst' hrest' =>
      rw [List.flatten_nil, List.flatten_cons] at heq
      exact absurd (List.append_eq_nil_iff.1 heq.symm).1 (hne _ _ hfirst')
  | cons hfirst hrest ih =>
    cases h' with
    | nil =>
      rw [List.flatten_nil, List.flatten_cons] at heq
      exact absurd (List.append_eq_nil_iff.1 heq).1 (hne _ _ hfirst)
    | cons hfirst' hrest' =>
      rw [List.flatten_cons, List.flatten_cons] at heq
      obtain ⟨hhead, heq⟩ := hR _ _ _ _ _ _ hfirst hfirst' heq
      exact .cons hhead (ih hrest' heq)

/-- Related inputs have one encoding. -/
def Determines (R : α → List β → Prop) (S : α → α → Prop) : Prop :=
  ∀ a a' bytes bytes', R a bytes → R a' bytes' → S a a' → bytes = bytes'

theorem Determines.sequence (hR : Determines R S) (h : List.Forall₂ R l parts)
    (h' : List.Forall₂ R l' parts') (hS : List.Forall₂ S l l') : parts = parts' := by
  induction hS generalizing parts parts' with
  | nil =>
    cases h
    cases h'
    rfl
  | cons hfirst _ ih =>
    cases h with
    | cons hhead htail =>
      cases h' with
      | cons hhead' htail' => rw [hR _ _ _ _ hhead hhead' hfirst, ih htail htail']

end Sequences

end Wire
