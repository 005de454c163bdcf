import Mathlib.Algebra.Group.Nat.Defs
import WorkflowEngine.Content

/-!
# Numbers of documents

A document holds whole numbers that fit in a word and finite numbers, and nothing else. The numbers
it holds make finite content and equal themselves, and so does every value made of them.
-/

namespace WorkflowEngine

namespace Binary64

private theorem shiftRounded_le (n k : Nat) (h : n < 2 ^ (53 + k)) :
    shiftRounded n k ≤ 2 ^ 53 := by
  have hquotient : n / 2 ^ k < 2 ^ 53 := by
    rw [Nat.div_lt_iff_lt_mul (Nat.two_pow_pos k), ← Nat.pow_add]
    exact h
  simp only [shiftRounded, Nat.pow_eq]
  split <;> omega

/-- The bits of a number whose power of two is below the largest stay below those of infinity. -/
private theorem natBits_lt {n : Nat} (hpos : n ≠ 0) (hlog : n.log2 < 1023) :
    natBits n < 2047 * fractionCount := by
  have hlt : n < 2 ^ (n.log2 + 1) := (Nat.log2_lt hpos).1 (Nat.lt_succ_self _)
  have hsignificand : (if n.log2 ≤ 52 then n * Nat.pow 2 (52 - n.log2)
      else shiftRounded n (n.log2 - 52)) ≤ 2 ^ 53 := by
    split
    · have hscaled : n * 2 ^ (52 - n.log2) ≤ 2 ^ (n.log2 + 1) * 2 ^ (52 - n.log2) :=
        Nat.mul_le_mul_right _ (Nat.le_of_lt hlt)
      rw [← Nat.pow_add, show n.log2 + 1 + (52 - n.log2) = 53 by omega] at hscaled
      exact hscaled
    · refine shiftRounded_le _ _ ?_
      rwa [show 53 + (n.log2 - 52) = n.log2 + 1 by omega]
  have hexponent : (n.log2 + 1022) * fractionCount ≤ 2044 * fractionCount :=
    Nat.mul_le_mul_right _ (by omega)
  simp only [natBits]
  refine Nat.lt_of_le_of_lt (Nat.min_le_right _ _) ?_
  simp only [fractionCount] at hexponent ⊢
  omega

private theorem isFinite_of_bits {n : Nat} (h : n < 2047 * fractionCount) (sign : Nat)
    (hsign : sign ≤ 1) :
    (Binary64.mk (UInt64.ofNat (sign * (2048 * fractionCount) + n))).isFinite = true := by
  simp only [fractionCount] at h
  simp only [isFinite, exponentBits, fractionCount, UInt64.toNat_ofNat', bne_iff_ne, ne_eq]
  obtain rfl | rfl : sign = 0 ∨ sign = 1 := by omega
  · omega
  · omega

/-- Whole numbers that fit in a word are finite. -/
theorem isFinite_ofInt {n : Int} (h : n.natAbs < Word.unsignedEnd) :
    (ofInt n).isFinite = true := by
  unfold ofInt
  split
  · rfl
  · have hpos : n.natAbs ≠ 0 := by omega
    have hlog : n.natAbs.log2 < 64 := (Nat.log2_lt hpos).2 h
    have hbits : natBits n.natAbs < 2047 * fractionCount := natBits_lt hpos (by omega)
    split
    · simpa using isFinite_of_bits hbits 0 (by omega)
    · simpa using isFinite_of_bits hbits 1 (by omega)

section Same

open Float.Model

/-- A number is as large as itself. -/
private theorem compare_self {u : UnpackedFloat} (h : u ≠ .notANumber) :
    u.compare u = some .eq := by
  cases u with
  | notANumber => exact absurd rfl h
  | infinity s => cases s <;> rfl
  | zero s => rfl
  | finite s m e hm =>
    unfold UnpackedFloat.compare
    cases s <;> simp [Ordering.then]

private theorem unpack_ne_notANumber {b : BitVec Format.binary64.numBits}
    (h : UnpackedFloat.unpackExponent b ≠ -BitVec.ofNat 11 1) :
    UnpackedFloat.unpack Format.binary64 b ≠ .notANumber := by
  unfold UnpackedFloat.unpack
  rw [if_neg h]
  by_cases hsmall : UnpackedFloat.unpackExponent b = .ofNat _ 0
  · rw [if_pos hsmall]
    by_cases hzero : UnpackedFloat.unpackMantissa b = .ofNat _ 0
    · rw [dif_pos hzero]
      nofun
    · rw [dif_neg hzero]
      nofun
  · rw [if_neg hsmall]
    nofun

private theorem unpack_packedInfinity_ne (s : UnpackedFloat.Sign) :
    UnpackedFloat.unpack Format.binary64 (UnpackedFloat.packedInfinity Format.binary64 s) ≠
      .notANumber := by
  unfold UnpackedFloat.unpack UnpackedFloat.packedInfinity
  simp [UnpackedFloat.unpackExponent_packComponents, UnpackedFloat.unpackMantissa_packComponents]

/-- The bits of a number are read back as a number. -/
private theorem unpack_pack_ne_notANumber {u : UnpackedFloat} (h : u ≠ .notANumber) :
    UnpackedFloat.unpack Format.binary64 (UnpackedFloat.pack Format.binary64 u) ≠
      .notANumber := by
  cases u with
  | notANumber => exact absurd rfl h
  | infinity s => exact unpack_packedInfinity_ne s
  | zero s =>
    apply unpack_ne_notANumber
    unfold UnpackedFloat.pack UnpackedFloat.packedZero
    rw [UnpackedFloat.unpackExponent_packComponents]
    decide
  | finite s m e hm =>
    unfold UnpackedFloat.pack
    dsimp only
    split
    · exact unpack_packedInfinity_ne s
    · rename_i hexponent
      split
      · apply unpack_ne_notANumber
        rw [UnpackedFloat.unpackExponent_packComponents]
        intro heq
        have hall : _ = 2 ^ 11 - 1 := congrArg BitVec.toNat heq
        simp only [BitVec.toNat_ofNat] at hall
        simp only [Nat.not_le] at hexponent
        omega
      · apply unpack_ne_notANumber
        rw [UnpackedFloat.unpackExponent_packComponents]
        decide

/-- Finite numbers equal themselves. -/
theorem same_self {x : Binary64} (h : x.isFinite = true) : x.same x = true := by
  have hexponent : @UnpackedFloat.unpackExponent Format.binary64 x.bits.toBitVec ≠
      -BitVec.ofNat 11 1 := by
    intro heq
    have hall : _ = 2 ^ 11 - 1 := congrArg BitVec.toNat heq
    simp only [isFinite, exponentBits, fractionCount, bne_iff_ne] at h
    simp [UnpackedFloat.unpackExponent, BitVec.extractLsb, BitVec.extractLsb',
      Nat.shiftRight_eq_div_pow] at hall
    omega
  have hnumber : x.toFloat.toModel.unpack ≠ .notANumber :=
    unpack_pack_ne_notANumber (unpack_ne_notANumber hexponent)
  change UnpackedFloat.beq _ _ = true
  unfold UnpackedFloat.beq
  rw [compare_self hnumber]
  rfl

end Same

end Binary64

namespace Json

/-- Every number is one that a document can hold. -/
inductive InRange : Json → Prop
  | null : InRange .null
  | bool (b : Bool) : InRange (.bool b)
  | int {n : Int} : -(Word.signedEnd : Int) ≤ n → n < Word.unsignedEnd → InRange (.int n)
  | float {x : Binary64} : x.isFinite = true → InRange (.float x)
  | str (s : String) : InRange (.str s)
  | arr {items : List Json} : (∀ v ∈ items, InRange v) → InRange (.arr items)
  | obj {members : List (String × Json)} : (∀ e ∈ members, InRange e.2) → InRange (.obj members)

namespace InRange

theorem isFinite_int {n : Int} (h : InRange (.int n)) : (Binary64.ofInt n).isFinite = true := by
  cases h with
  | int hleast hlimit =>
    simp only [Word.signedEnd] at hleast
    refine Binary64.isFinite_ofInt ?_
    simp only [Word.unsignedEnd] at hlimit ⊢
    omega

theorem items {items : List Json} (h : InRange (.arr items)) : ∀ v ∈ items, InRange v := by
  cases h
  assumption

theorem members {members : List (String × Json)} (h : InRange (.obj members)) :
    ∀ e ∈ members, InRange e.2 := by
  cases h
  assumption

end InRange

@[simp] theorem inRange_arr {items : List Json} : InRange (.arr items) ↔ ∀ v ∈ items, InRange v :=
  ⟨InRange.items, .arr⟩

@[simp] theorem inRange_obj {members : List (String × Json)} :
    InRange (.obj members) ↔ ∀ e ∈ members, InRange e.2 :=
  ⟨InRange.members, .obj⟩

private theorem sameItems_self {items : List Json} (h : ∀ v ∈ items, v.same v = true) :
    sameItems items items = true := by
  induction items with
  | nil => rfl
  | cons v rest ih =>
    have hrest : sameItems rest rest = true := ih fun w hw => h w (by simp [hw])
    simp [sameItems, h v, hrest]

private theorem sameMembers_self {members : List (String × Json)}
    (h : ∀ e ∈ members, e.2.same e.2 = true) : sameMembers members members = true := by
  induction members with
  | nil => rfl
  | cons e rest ih =>
    have hrest : sameMembers rest rest = true := ih fun e' he' => h e' (by simp [he'])
    simp [sameMembers, h e, hrest]

/-- A value without NaN is the same as itself. -/
theorem InRange.same_self {v : Json} (h : InRange v) : v.same v = true := by
  induction h with
  | null => rfl
  | bool b => simp [same]
  | int => simp [same]
  | float hfinite => exact Binary64.same_self hfinite
  | str s => simp [same]
  | arr _ ih => exact sameItems_self ih
  | obj _ ih => exact sameMembers_self ih

end Json

end WorkflowEngine
