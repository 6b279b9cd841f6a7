import WingPhp.Lib.Memory

/-!
# `wchar_t` strings in memory

Win32 stores a `wchar_t` as two bytes, the low one first.  `wide` reads a block of bytes as such
units (an odd byte at the end is not a unit) and `narrow` are the bytes of units.
-/

namespace Memory

/-- The unit in two bytes. -/
def unit (lo hi : UInt8) : UInt16 := UInt16.ofNat (lo.toNat + 256 * hi.toNat)

def wide : List UInt8 → List UInt16
  | lo :: hi :: mem => unit lo hi :: wide mem
  | _ => []

def narrow : List UInt16 → List UInt8
  | [] => []
  | c :: units => UInt8.ofNat c.toNat :: UInt8.ofNat (c.toNat / 256) :: narrow units

theorem unit_bytes (c : UInt16) : unit (UInt8.ofNat c.toNat) (UInt8.ofNat (c.toNat / 256)) = c := by
  apply UInt16.toNat_inj.mp
  have hlt := c.toNat_lt
  simp only [unit, UInt16.toNat_ofNat', UInt8.toNat_ofNat']
  omega

theorem wide_narrow_append (units : List UInt16) (mem : List UInt8) :
    wide (narrow units ++ mem) = units ++ wide mem := by
  induction units with
  | nil => rfl
  | cons c units ih =>
    show unit _ _ :: wide (narrow units ++ mem) = c :: (units ++ wide mem)
    rw [ih, unit_bytes]

theorem wide_narrow (units : List UInt16) : wide (narrow units) = units := by
  have h := wide_narrow_append units []
  rwa [List.append_nil, show wide [] = [] from rfl, List.append_nil] at h

theorem bytes_unit (lo hi : UInt8) :
    UInt8.ofNat (unit lo hi).toNat = lo ∧ UInt8.ofNat ((unit lo hi).toNat / 256) = hi := by
  have hlo := lo.toNat_lt
  have hhi := hi.toNat_lt
  refine ⟨UInt8.toNat_inj.mp ?_, UInt8.toNat_inj.mp ?_⟩
  · simp only [unit, UInt16.toNat_ofNat', UInt8.toNat_ofNat']
    omega
  · simp only [unit, UInt16.toNat_ofNat', UInt8.toNat_ofNat']
    omega

theorem narrow_wide : ∀ mem : List UInt8, mem.length % 2 = 0 → narrow (wide mem) = mem
  | [], _ => rfl
  | [_], h => by cases h
  | lo :: hi :: mem, h => by
    obtain ⟨hlo, hhi⟩ := bytes_unit lo hi
    have hmem : mem.length % 2 = 0 := by
      simp only [List.length_cons] at h
      omega
    show UInt8.ofNat (unit lo hi).toNat :: UInt8.ofNat ((unit lo hi).toNat / 256) :: narrow (wide mem) = _
    rw [hlo, hhi, narrow_wide mem hmem]

theorem narrow_inj {a b : List UInt16} : narrow a = narrow b ↔ a = b := by
  constructor
  · intro h
    rw [← wide_narrow a, ← wide_narrow b, h]
  · rintro rfl
    rfl

theorem narrow_append (a b : List UInt16) : narrow (a ++ b) = narrow a ++ narrow b := by
  induction a with
  | nil => rfl
  | cons c a ih => simp [narrow, ih]

@[simp] theorem length_narrow (units : List UInt16) : (narrow units).length = 2 * units.length := by
  induction units with
  | nil => rfl
  | cons c units ih =>
    simp only [narrow, List.length_cons, ih]
    omega

theorem narrow_malloc (n : Nat) : narrow (malloc n) = malloc (2 * n) := by
  induction n with
  | zero => rfl
  | succ n ih =>
    show UInt8.ofNat 0 :: UInt8.ofNat 0 :: narrow (malloc n) = malloc (2 * n + 1 + 1)
    rw [ih]
    rfl

theorem wide_take : ∀ (mem : List UInt8) (k : Nat), wide (mem.take (2 * k)) = (wide mem).take k
  | _, 0 => by simp [wide]
  | [], k + 1 => by simp [wide]
  | [_], k + 1 => by simp [wide, Nat.mul_succ]
  | lo :: hi :: mem, k + 1 => by
    rw [show 2 * (k + 1) = 2 * k + 1 + 1 by omega]
    simp [wide, wide_take mem k]

theorem length_wide : ∀ mem : List UInt8, (wide mem).length = mem.length / 2
  | [] => rfl
  | [_] => by simp [wide]
  | _ :: _ :: mem => by
    simp only [wide, List.length_cons, length_wide mem]
    omega

end Memory
