import DocQuery.Proofs.Fragments

/-! # Literals in SQL

Whatever a literal holds, its SQL is a fragment: a string is quoted, and the text of a number is a
word, perhaps with a sign in front of it. A number that is read from digits has no sign: the bits of
the nearest double stay below the sign bit (`nearestBits_lt`), and a double is made of its bits.

* `Literal.fragment_sql`: the SQL for any literal is a fragment.
* `isWord_ofDecimal`: the text of a double that is read from digits is a word.
-/

set_option autoImplicit false

namespace DocQuery.Decimal

open DocQuery.Sql

/-! ## Texts -/

theorem ordinary_append {a b : String} (ha : ∀ c ∈ a.toList, isOrdinary c = true)
    (hb : ∀ c ∈ b.toList, isOrdinary c = true) : ∀ c ∈ (a ++ b).toList, isOrdinary c = true := by
  intro c hc
  rw [String.toList_append, List.mem_append] at hc
  exact hc.elim (ha c) (hb c)

theorem ordinary_zeros (n : Nat) : ∀ c ∈ (zeros n).toList, isOrdinary c = true := by
  intro c hc
  rw [zeros, String.toList_ofList] at hc
  rw [List.eq_of_mem_replicate hc]
  decide

theorem ordinary_digits {ds : List Char} {n : Nat} (h : ds ⊆ Nat.toDigits 10 n) :
    ∀ c ∈ (String.ofList ds).toList, isOrdinary c = true := by
  intro c hc
  rw [String.toList_ofList] at hc
  exact isOrdinary_of_isDigit (Token.isDigit_toDigits n c (h hc))

theorem Digits.isWord_positional (d : Digits) : IsWord d.positional := by
  have hpoint : ∀ c ∈ ".".toList, isOrdinary c = true := by decide
  unfold Digits.positional
  dsimp only
  split
  · exact ⟨by simp, ordinary_append (ordinary_append (ordinary_digits fun _ => id)
      (ordinary_zeros _)) (by decide)⟩
  · split
    · exact ⟨by simp, ordinary_append (ordinary_append (ordinary_digits (List.take_subset _ _))
        hpoint) (ordinary_digits (List.drop_subset _ _))⟩
    · exact ⟨by simp, ordinary_append (ordinary_append (by decide) (ordinary_zeros _))
        (ordinary_digits fun _ => id)⟩

theorem isWord_magnitude (m : Nat) (e : Int) :
    IsWord (if m = 0 then "0.0" else (shortest .up m e).positional) := by
  split
  · exact ⟨by decide, by decide⟩
  · exact Digits.isWord_positional _

theorem fragment_positional (x : Float) : Fragment (positional x) := by
  unfold positional
  split
  · exact fun _ => rfl
  · split <;> exact fun _ => rfl
  · split
    · exact (isWord_magnitude _ _).fragment_minus
    · simpa using (isWord_magnitude _ _).fragment

/-! ## Signs -/

/-- A bit pattern below the sign bit stands for nothing negative. -/
theorem ofBits_unsigned {bits : Nat} (h : bits < 2 ^ 63) :
    (∀ n, Binary64.ofBits bits = .infinite n → n = false) ∧
      ∀ n m e, Binary64.ofBits bits = .finite n m e → n = false := by
  have hsign : (bits / pow2 63 % 2 == 1) = false := by
    rw [pow2, Nat.pow_eq, Nat.div_eq_of_lt h]
    rfl
  unfold Binary64.ofBits
  dsimp only
  rw [hsign]
  refine ⟨fun n hn => ?_, fun n m e hn => ?_⟩
  · split at hn <;> split at hn <;> cases hn
    rfl
  · split at hn <;> split at hn <;> cases hn <;> rfl

theorem isWord_positional {x : Float} (h : x.toBits.toNat < 2 ^ 63) : IsWord (positional x) := by
  obtain ⟨hinfinite, hfinite⟩ := ofBits_unsigned h
  unfold positional
  split
  · exact ⟨by decide, by decide⟩
  · rename_i n hx
    cases hinfinite n hx
    exact ⟨by decide, by decide⟩
  · rename_i n m e hx
    cases hfinite n m e hx
    simpa using isWord_magnitude m e

theorem roundHalfEven_le {num den bound : Nat} (h : num < den * bound) :
    roundHalfEven num den ≤ bound := by
  have hq : num / den < bound := Nat.div_lt_of_lt_mul h
  unfold roundHalfEven
  dsimp only
  repeat' split
  all_goals omega

/-- A scale that leaves no more than 53 digits in front of the point. -/
theorem significand_le {num den : Nat} {q : Int} (hden : 0 < den)
    (hq : (num.log2 : Int) - den.log2 - 52 ≤ q) :
    (if 0 ≤ q then roundHalfEven num (den * pow2 q.toNat)
      else roundHalfEven (num * pow2 (-q).toNat) den) ≤ pow2 53 := by
  have hnum : num < 2 ^ (num.log2 + 1) := Nat.lt_log2_self
  have hlog : 2 ^ den.log2 ≤ den := Nat.log2_self_le (by omega)
  split
  · refine roundHalfEven_le ?_
    calc num < 2 ^ (num.log2 + 1) := hnum
      _ ≤ 2 ^ (den.log2 + q.toNat + 53) := Nat.pow_le_pow_right (by decide) (by omega)
      _ = 2 ^ den.log2 * 2 ^ q.toNat * 2 ^ 53 := by rw [Nat.pow_add, Nat.pow_add]
      _ ≤ den * pow2 q.toNat * pow2 53 :=
        Nat.mul_le_mul_right _ (Nat.mul_le_mul_right _ hlog)
  · refine roundHalfEven_le ?_
    calc num * pow2 (-q).toNat < 2 ^ (num.log2 + 1) * 2 ^ (-q).toNat :=
          Nat.mul_lt_mul_of_pos_right hnum (Nat.pow_pos (by decide))
      _ = 2 ^ (num.log2 + 1 + (-q).toNat) := (Nat.pow_add _ _ _).symm
      _ ≤ 2 ^ (den.log2 + 53) := Nat.pow_le_pow_right (by decide) (by omega)
      _ = 2 ^ den.log2 * 2 ^ 53 := Nat.pow_add _ _ _
      _ ≤ den * pow2 53 := Nat.mul_le_mul_right _ hlog

/-- The bits of a significand of at most 53 digits and a scale are below the sign bit. -/
theorem packed_lt {m : Nat} {q : Int} (hm : m < 2 ^ 53) :
    (if m < pow2 52 then m else if 971 < q then 2047 * pow2 52
      else (q + 1075).toNat * pow2 52 + (m - pow2 52)) < 2 ^ 63 := by
  have hpow : pow2 52 = 4503599627370496 := by decide
  rw [hpow]
  split
  · omega
  · split
    · omega
    · omega

theorem nearestBits_lt {num den : Nat} (hden : 0 < den) : nearestBits num den < 2 ^ 63 := by
  unfold nearestBits
  extract_lets scale significand first fitted
  have hpow : pow2 53 = 2 ^ 53 := rfl
  have hsecond : significand (scale + 1) ≤ pow2 53 := significand_le hden (by omega)
  -- Rounding up may give one digit too many, which is a zero.
  have hfitted : fitted.1 ≤ pow2 53 := by
    by_cases hfirst : first < pow2 53
    · simp only [fitted, if_pos hfirst]
      omega
    · simpa only [fitted, if_neg hfirst] using hsecond
  split
  rename_i m q hmq
  refine packed_lt ?_
  have hm := congrArg Prod.fst hmq
  split at hm
  · dsimp only at hm
    omega
  · dsimp only at hm
    omega

section Packed

open Float.Model.UnpackedFloat

theorem packComponents_lt (e : BitVec 11) (m : BitVec 52) :
    (packComponents .binary64 .positive e m).toNat < 2 ^ 63 := by
  have hmsb : BitVec.msb ((0#1 ++ e) ++ m) = false := by
    rw [BitVec.msb_append, BitVec.msb_append]
    rfl
  have hlt := BitVec.msb_eq_false_iff_two_mul_lt.1 hmsb
  change ((0#1 ++ e) ++ m).toNat < 2 ^ 63
  omega

theorem pack_finite_lt (m : Nat) (e : Int) (hm : 0 < m) :
    (pack .binary64 (.finite .positive m e hm)).toNat < 2 ^ 63 := by
  unfold pack
  dsimp only
  split
  · exact packComponents_lt _ _
  · split <;> exact packComponents_lt _ _

/-- Bits without the sign bit have none after unpacking and packing, whatever they stand for. -/
theorem pack_unpack_lt {b : BitVec 64} (h : b.toNat < 2 ^ 63) :
    (pack .binary64 (unpack .binary64 b)).toNat < 2 ^ 63 := by
  have hbit : b.extractLsb 63 63 = 0#1 := by
    apply BitVec.eq_of_toNat_eq
    rw [BitVec.extractLsb_toNat, Nat.shiftRight_eq_div_pow, Nat.div_eq_of_lt h]
    rfl
  have hsign : Sign.ofBitVec (@unpackSign .binary64 b) = .positive := by
    change Sign.ofBitVec (b.extractLsb 63 63) = .positive
    rw [hbit]
    rfl
  unfold Float.Model.UnpackedFloat.unpack
  dsimp only
  rw [hsign]
  split
  · split <;> exact packComponents_lt _ _
  · split
    · split
      · exact packComponents_lt _ _
      · exact pack_finite_lt _ _ _
    · exact pack_finite_lt _ _ _

end Packed

theorem toBits_nearest_lt (num : Nat) {den : Nat} (hden : 0 < den) :
    (nearest num den).toBits.toNat < 2 ^ 63 := by
  refine pack_unpack_lt ?_
  change (UInt64.ofNat _).toNat < 2 ^ 63
  rw [UInt64.toNat_ofNat']
  split
  · decide
  · have hbits : nearestBits num den < 2 ^ 63 := nearestBits_lt hden
    omega

theorem isWord_ofDecimal (digits : Nat) (exponent : Int) :
    IsWord (positional (ofDecimal digits exponent)) := by
  refine isWord_positional ?_
  unfold ofDecimal
  dsimp only
  repeat' split
  · exact toBits_nearest_lt 0 (by decide)
  · exact toBits_nearest_lt _ (by decide)
  · exact toBits_nearest_lt _ (by decide)
  · exact toBits_nearest_lt _ (Nat.pow_pos (by decide))

end DocQuery.Decimal

namespace DocQuery

open Sql

theorem Literal.fragment_sql (l : Literal) : Fragment l.sql := by
  cases l with
  | none => exact fun _ => rfl
  | bool b => cases b <;> exact fun _ => rfl
  | int n => exact fragment_int n
  | float x => exact Decimal.fragment_positional x
  | str s => exact fragment_quote s

end DocQuery
