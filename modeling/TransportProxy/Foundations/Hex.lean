import Mathlib.Data.Nat.Digits.Lemmas

/-! # Hexadecimal numbers

`lowerHex w n` is what the format `{:0wx}` writes for `n`, for a width `w` of at least one:
lower-case digits, the highest first, with zeros in front up to the width and none cut off beyond
it.
-/
namespace TransportProxy.Foundations
set_option autoImplicit false

/-- The ASCII code of a digit. -/
def hexDigit (d : ℕ) : UInt8 := if d < 10 then (48 + d).toUInt8 else (87 + d).toUInt8

def hexValue (c : UInt8) : ℕ := if c.toNat < 58 then c.toNat - 48 else c.toNat - 87

theorem hexValue_hexDigit {d : ℕ} (h : d < 16) : hexValue (hexDigit d) = d := by
  decide +revert

def lowerHex (w n : ℕ) : List UInt8 := ((Nat.digitsAppend 16 w n).map hexDigit).reverse

def fromHex (text : List UInt8) : ℕ := Nat.ofDigits 16 (text.reverse.map hexValue)

/-- The width is kept by the numbers that fit it. -/
theorem length_lowerHex {w n : ℕ} (h : n < 16 ^ w) : (lowerHex w n).length = w := by
  rw [lowerHex, List.length_reverse, List.length_map]
  exact Nat.length_digitsAppend (by decide) w h

theorem fromHex_lowerHex (w n : ℕ) : fromHex (lowerHex w n) = n := by
  have hdigits : ((Nat.digitsAppend 16 w n).map hexDigit).map hexValue =
      Nat.digitsAppend 16 w n := by
    rw [List.map_map]
    refine (List.map_congr_left fun d hd => ?_).trans (List.map_id _)
    exact hexValue_hexDigit (Nat.lt_of_mem_digitsAppend (by decide) w d hd)
  rw [fromHex, lowerHex, List.reverse_reverse, hdigits, Nat.digitsAppend,
    Nat.ofDigits_append_replicate_zero, Nat.ofDigits_digits]

example : lowerHex 8 48879 = [48, 48, 48, 48, 98, 101, 101, 102] := by decide

end TransportProxy.Foundations
