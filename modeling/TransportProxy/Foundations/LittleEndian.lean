import Mathlib.Data.UInt

/-! # Four bytes, least significant first

`u32::to_le_bytes` and `u32::from_le_bytes`.
-/
namespace TransportProxy.Foundations
set_option autoImplicit false

def toLeBytes (n : UInt32) : List UInt8 :=
  [.ofNat n.toNat, .ofNat (n.toNat / 256), .ofNat (n.toNat / 65536), .ofNat (n.toNat / 16777216)]

/-- The first four bytes of a list that has them. -/
def fromLeBytes : List UInt8 → UInt32
  | b₀ :: b₁ :: b₂ :: b₃ :: _ =>
    .ofNat (b₀.toNat + 256 * b₁.toNat + 65536 * b₂.toNat + 16777216 * b₃.toNat)
  | _ => 0

@[simp] theorem length_toLeBytes (n : UInt32) : (toLeBytes n).length = 4 := rfl

@[simp] theorem fromLeBytes_toLeBytes (n : UInt32) (rest : List UInt8) :
    fromLeBytes (toLeBytes n ++ rest) = n := by
  have hn := n.toNat_lt
  apply UInt32.toNat.inj
  simp only [toLeBytes, List.cons_append, fromLeBytes, UInt32.toNat_ofNat', UInt8.toNat_ofNat']
  omega

/-- Only the first four bytes matter. -/
theorem fromLeBytes_append {xs : List UInt8} (h : 4 ≤ xs.length) (ys : List UInt8) :
    fromLeBytes (xs ++ ys) = fromLeBytes xs := by
  match xs, h with
  | _ :: _ :: _ :: _ :: _, _ => rfl

theorem fromLeBytes_take (xs : List UInt8) : fromLeBytes (xs.take 4) = fromLeBytes xs := by
  match xs with
  | [] | [_] | [_, _] | [_, _, _] | _ :: _ :: _ :: _ :: _ => rfl

end TransportProxy.Foundations
