import Mathlib.Data.List.Basic
import Mathlib.Logic.Function.Basic

/-!
# C arrays with a fill count

A block from `new T[length]` with its cells, and the list of its first `n`
cells (`take`).  A store is not checked against `length`, as in C: that an
index stays below `length` is a theorem about a program, not a property of the
array.  `shiftFrom a i k` is the deletion loop
`for (f = i; f < i + k; f++) a[f] = a[f+1]`; on the first `n` cells it is
`List.eraseIdx` (`take_shiftFrom`).
-/

structure CArray (α : Type) where
  length : Nat
  get : Nat → α

namespace CArray

variable {α : Type}

/-- `new T[n]`, every cell reading as `x`. -/
def alloc (n : Nat) (x : α) : CArray α := ⟨n, fun _ => x⟩

def set (a : CArray α) (i : Nat) (x : α) : CArray α :=
  { a with get := Function.update a.get i x }

/-- The first `n` cells. -/
def take (a : CArray α) (n : Nat) : List α := (List.range n).map a.get

/-- `k` iterations of the deletion loop, the first at index `i`. -/
def shiftFrom (a : CArray α) (i : Nat) : Nat → CArray α
  | 0 => a
  | k + 1 => (a.set i (a.get (i + 1))).shiftFrom (i + 1) k

@[simp] theorem length_set (a : CArray α) (i : Nat) (x : α) : (a.set i x).length = a.length := rfl

theorem get_set (a : CArray α) (i j : Nat) (x : α) :
    (a.set i x).get j = if j = i then x else a.get j := by
  simp [set, Function.update_apply]

@[simp] theorem length_take (a : CArray α) (n : Nat) : (a.take n).length = n := by
  simp [take]

theorem getElem?_take (a : CArray α) {n i : Nat} (h : i < n) : (a.take n)[i]? = some (a.get i) := by
  simp [take, h]

theorem take_congr {a b : CArray α} {n : Nat} (h : ∀ i, i < n → a.get i = b.get i) :
    a.take n = b.take n := by
  unfold take
  exact List.map_congr_left fun i hi => h i (List.mem_range.mp hi)

theorem take_set_of_le (a : CArray α) {i n : Nat} (x : α) (h : n ≤ i) :
    (a.set i x).take n = a.take n :=
  take_congr fun j hj => by rw [get_set, if_neg (by omega)]

/-- Storing at the fill count appends. -/
theorem take_set_succ (a : CArray α) (n : Nat) (x : α) :
    (a.set n x).take (n + 1) = a.take n ++ [x] := by
  have h : (a.set n x).take n = a.take n := take_set_of_le a x (Nat.le_refl n)
  unfold take at h ⊢
  rw [List.range_succ, List.map_append, h]
  simp [get_set]

theorem get_mem_take (a : CArray α) {n i : Nat} (h : i < n) : a.get i ∈ a.take n :=
  List.mem_map.mpr ⟨i, List.mem_range.mpr h, rfl⟩

@[simp] theorem length_shiftFrom (a : CArray α) (i k : Nat) :
    (a.shiftFrom i k).length = a.length := by
  induction k generalizing a i with
  | zero => rfl
  | succ k ih => rw [shiftFrom, ih, length_set]

theorem get_shiftFrom (a : CArray α) (i k j : Nat) :
    (a.shiftFrom i k).get j = if i ≤ j ∧ j < i + k then a.get (j + 1) else a.get j := by
  induction k generalizing a i with
  | zero => rw [shiftFrom, if_neg (by omega)]
  | succ k ih =>
    rw [shiftFrom, ih, get_set, get_set]
    by_cases hj : j = i
    · subst hj
      rw [if_neg (by omega), if_pos rfl, if_pos (by omega)]
    · by_cases hr : i + 1 ≤ j ∧ j < i + 1 + k
      · rw [if_pos hr, if_neg (by omega), if_pos (by omega)]
      · rw [if_neg hr, if_neg hj, if_neg (by omega)]

/-- **The deletion loop deletes.**  Running it from `i` up to the last of the
first `n` cells leaves those cells without the `i`-th. -/
theorem take_shiftFrom (a : CArray α) {i n : Nat} (h : i < n) :
    (a.shiftFrom i (n - 1 - i)).take (n - 1) = (a.take n).eraseIdx i := by
  apply List.ext_getElem?
  intro j
  rw [List.getElem?_eraseIdx]
  by_cases hj : j < n - 1
  · rw [getElem?_take _ hj, get_shiftFrom]
    by_cases hlt : j < i
    · rw [if_neg (by omega), if_pos hlt, getElem?_take _ (by omega)]
    · rw [if_pos (by omega), if_neg hlt, getElem?_take _ (by omega)]
  · rw [List.getElem?_eq_none (by simp; omega)]
    split
    · omega
    · rw [List.getElem?_eq_none (by simp; omega)]

end CArray
