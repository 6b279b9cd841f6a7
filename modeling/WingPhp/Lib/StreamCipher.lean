import Mathlib.Data.List.Indexes
import Mathlib.Logic.Function.Basic

/-!
# Stream ciphers that keep their position

A stream cipher replaces the symbol at position `p` by `mask p` of it.  A key
object remembers the position where the last call stopped; a call marked final
takes it back to `0`.  `maskFrom_append` says that two calls in a row are one
call on the two pieces together, `maskFrom_maskFrom` that a cipher whose masks
undo themselves is undone by being applied again at the same position.
-/

namespace StreamCipher

variable {α : Type}

/-- The symbols `data`, the first of them at position `p`. -/
def maskFrom (mask : Nat → α → α) (p : Nat) (data : List α) : List α :=
  data.mapIdx fun i a => mask (p + i) a

section

variable (mask : Nat → α → α) (p : Nat)

@[simp] theorem length_maskFrom (data : List α) : (maskFrom mask p data).length = data.length :=
  List.length_mapIdx

@[simp] theorem maskFrom_nil : maskFrom mask p [] = [] := rfl

theorem maskFrom_append (front back : List α) :
    maskFrom mask p (front ++ back) =
      maskFrom mask p front ++ maskFrom mask (p + front.length) back := by
  simp only [maskFrom, List.mapIdx_append]
  congr 1
  apply congrFun
  congr 1
  funext i a
  rw [show p + (i + front.length) = p + front.length + i by omega]

theorem maskFrom_cons (a : α) (data : List α) :
    maskFrom mask p (a :: data) = mask p a :: maskFrom mask (p + 1) data := maskFrom_append mask p [a] data

theorem maskFrom_take (data : List α) (n : Nat) : maskFrom mask p (data.take n) = (maskFrom mask p data).take n := by
  rcases Nat.le_total data.length n with hle | hle
  · have hmasked : (maskFrom mask p data).length ≤ n := by rwa [length_maskFrom]
    rw [List.take_of_length_le hle, List.take_of_length_le hmasked]
  · have hfront : (maskFrom mask p (data.take n)).length = n := by rw [length_maskFrom, List.length_take_of_le hle]
    have hsplit := maskFrom_append mask p (data.take n) (data.drop n)
    rw [List.take_append_drop] at hsplit
    rw [hsplit, List.take_left' hfront]

/-- Masks that undo themselves undo the cipher. -/
theorem maskFrom_maskFrom {mask : Nat → α → α} (h : ∀ i, Function.Involutive (mask i))
    (data : List α) : maskFrom mask p (maskFrom mask p data) = data := by
  induction data generalizing p with
  | nil => rfl
  | cons a data ih =>
    rw [maskFrom_cons, maskFrom_cons, h p, ih]

end

/-- A key object: its masks and the position of the next symbol. -/
structure Key (α : Type) where
  mask : Nat → α → α
  pos : Nat

namespace Key

/-- Mask `data`; after a `final` call the key starts again. -/
def apply (key : Key α) (final : Bool) (data : List α) : List α × Key α :=
  (maskFrom key.mask key.pos data,
    ⟨key.mask, if final then 0 else key.pos + data.length⟩)

end Key

end StreamCipher
