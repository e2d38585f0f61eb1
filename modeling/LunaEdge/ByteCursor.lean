import Mathlib.Data.Nat.Bitwise
import Mathlib.Data.UInt

/-!
# Positions in a byte string

A parser that walks a byte string by offsets reads a field at the length of
what stands before it. `At frame pos rest` says that `rest` is what stands
from `pos` on; it is what a walk keeps, and reading, skipping and slicing
are stated from it. The numbers of two and three bytes are big-endian.
-/

namespace LunaEdge

namespace Bytes

section Position

variable {α : Type} {frame xs rest : List α} {pos : Nat}

def At (frame : List α) (pos : Nat) (rest : List α) : Prop :=
  ∃ before, frame = before ++ rest ∧ before.length = pos

theorem At.start (frame : List α) : At frame 0 frame := ⟨[], rfl, rfl⟩

theorem At.length_eq (h : At frame pos rest) : frame.length = pos + rest.length := by
  obtain ⟨before, rfl, rfl⟩ := h
  exact List.length_append

theorem At.skip (h : At frame pos (xs ++ rest)) : At frame (pos + xs.length) rest := by
  obtain ⟨before, rfl, rfl⟩ := h
  exact ⟨before ++ xs, (List.append_assoc _ _ _).symm, List.length_append⟩

theorem At.skip_cons {a : α} (h : At frame pos (a :: rest)) : At frame (pos + 1) rest :=
  have hone : At frame pos ([a] ++ rest) := h
  hone.skip

theorem At.getElem? {a : α} (h : At frame pos (a :: rest)) : frame[pos]? = some a := by
  obtain ⟨before, rfl, rfl⟩ := h
  simp

theorem At.slice (h : At frame pos (xs ++ rest)) : (frame.drop pos).take xs.length = xs := by
  obtain ⟨before, rfl, rfl⟩ := h
  simp

end Position

/-! ## Numbers -/

def uint16 (n : Nat) : List UInt8 := [UInt8.ofNat (n / 256), UInt8.ofNat n]

def uint24 (n : Nat) : List UInt8 := UInt8.ofNat (n / 65536) :: uint16 n

@[simp] theorem length_uint16 (n : Nat) : (uint16 n).length = 2 := rfl

@[simp] theorem length_uint24 (n : Nat) : (uint24 n).length = 3 := rfl

theorem shiftLeft_or (hi lo : UInt8) : hi.toNat <<< 8 ||| lo.toNat = hi.toNat * 256 + lo.toNat := by
  have hlo : lo.toNat < 2 ^ 8 := lo.toNat_lt
  rw [← Nat.shiftLeft_add_eq_or_of_lt hlo, Nat.shiftLeft_eq]

theorem ofNat_shiftLeft_or {n : Nat} (h : n < UInt16.size) :
    (UInt8.ofNat (n / 256)).toNat <<< 8 ||| (UInt8.ofNat n).toNat = n := by
  have hsize : UInt16.size = 65536 := rfl
  rw [shiftLeft_or, UInt8.toNat_ofNat', UInt8.toNat_ofNat']
  omega

end Bytes

end LunaEdge
