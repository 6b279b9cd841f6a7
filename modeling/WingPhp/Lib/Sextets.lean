import Mathlib.Data.List.Basic

/-!
# Bytes in groups of six bits

The bits of a text of bytes cut into groups of six, the last one filled up with zeros (`sextets`), and the whole
bytes that groups of six bits make (`octets`).

    octets (sextets bytes) = bytes                                          (octets_sextets)
    ss and sextets (octets ss) agree in front of the last, unfinished byte  (sextets_octets)
-/

namespace Sextets

def sextets : List UInt8 → List Nat
  | [] => []
  | [b₀] => [b₀.toNat / 4, b₀.toNat % 4 * 16]
  | [b₀, b₁] => [b₀.toNat / 4, b₀.toNat % 4 * 16 + b₁.toNat / 16, b₁.toNat % 16 * 4]
  | b₀ :: b₁ :: b₂ :: bytes =>
    b₀.toNat / 4 :: (b₀.toNat % 4 * 16 + b₁.toNat / 16) :: (b₁.toNat % 16 * 4 + b₂.toNat / 64) ::
      b₂.toNat % 64 :: sextets bytes

def octets : List Nat → List UInt8
  | [] => []
  | [_] => []
  | [s₀, s₁] => [UInt8.ofNat (s₀ * 4 + s₁ / 16)]
  | [s₀, s₁, s₂] => [UInt8.ofNat (s₀ * 4 + s₁ / 16), UInt8.ofNat (s₁ * 16 + s₂ / 4)]
  | s₀ :: s₁ :: s₂ :: s₃ :: ss =>
    UInt8.ofNat (s₀ * 4 + s₁ / 16) :: UInt8.ofNat (s₁ * 16 + s₂ / 4) :: UInt8.ofNat (s₂ * 64 + s₃) :: octets ss

/-- Three bytes in front. -/
theorem sextets_group (b₀ b₁ b₂ : UInt8) (bytes : List UInt8) :
    sextets (b₀ :: b₁ :: b₂ :: bytes) = sextets [b₀, b₁, b₂] ++ sextets bytes := rfl

theorem sextets_lt (bytes : List UInt8) : ∀ s ∈ sextets bytes, s < 64 := by
  fun_induction sextets bytes with
  | case1 => simp
  | case2 b₀ =>
    have h₀ := b₀.toNat_lt
    simp
    omega
  | case3 b₀ b₁ =>
    have h₀ := b₀.toNat_lt
    have h₁ := b₁.toNat_lt
    simp
    omega
  | case4 b₀ b₁ b₂ bytes ih =>
    have h₀ := b₀.toNat_lt
    have h₁ := b₁.toNat_lt
    have h₂ := b₂.toNat_lt
    simp only [List.forall_mem_cons]
    exact ⟨by omega, by omega, by omega, by omega, ih⟩

theorem length_sextets (bytes : List UInt8) : (sextets bytes).length = (bytes.length * 4 + 2) / 3 := by
  fun_induction sextets bytes with
  | case1 => simp
  | case2 => simp
  | case3 => simp
  | case4 b₀ b₁ b₂ bytes ih =>
    simp only [List.length_cons, ih]
    omega

theorem length_octets (ss : List Nat) : (octets ss).length = ss.length * 3 / 4 := by
  fun_induction octets ss with
  | case1 => simp
  | case2 => simp
  | case3 => simp
  | case4 => simp
  | case5 s₀ s₁ s₂ s₃ ss ih =>
    simp only [List.length_cons, ih]
    omega

theorem ofNat_eq {n : Nat} {b : UInt8} (h : n % 256 = b.toNat) : UInt8.ofNat n = b := by
  apply UInt8.toNat_inj.mp
  rw [UInt8.toNat_ofNat', ← h]

/-- **The bytes come back.** -/
theorem octets_sextets (bytes : List UInt8) : octets (sextets bytes) = bytes := by
  fun_induction sextets bytes with
  | case1 => rfl
  | case2 b₀ =>
    have h₀ := b₀.toNat_lt
    have e₀ : UInt8.ofNat (b₀.toNat / 4 * 4 + b₀.toNat % 4 * 16 / 16) = b₀ := ofNat_eq (by omega)
    rw [octets, e₀]
  | case3 b₀ b₁ =>
    have h₀ := b₀.toNat_lt
    have h₁ := b₁.toNat_lt
    have e₀ : UInt8.ofNat (b₀.toNat / 4 * 4 + (b₀.toNat % 4 * 16 + b₁.toNat / 16) / 16) = b₀ := ofNat_eq (by omega)
    have e₁ : UInt8.ofNat ((b₀.toNat % 4 * 16 + b₁.toNat / 16) * 16 + b₁.toNat % 16 * 4 / 4) = b₁ :=
      ofNat_eq (by omega)
    rw [octets, e₀, e₁]
  | case4 b₀ b₁ b₂ bytes ih =>
    have h₀ := b₀.toNat_lt
    have h₁ := b₁.toNat_lt
    have h₂ := b₂.toNat_lt
    have e₀ : UInt8.ofNat (b₀.toNat / 4 * 4 + (b₀.toNat % 4 * 16 + b₁.toNat / 16) / 16) = b₀ := ofNat_eq (by omega)
    have e₁ : UInt8.ofNat ((b₀.toNat % 4 * 16 + b₁.toNat / 16) * 16 +
        (b₁.toNat % 16 * 4 + b₂.toNat / 64) / 4) = b₁ := ofNat_eq (by omega)
    have e₂ : UInt8.ofNat ((b₁.toNat % 16 * 4 + b₂.toNat / 64) * 64 + b₂.toNat % 64) = b₂ := ofNat_eq (by omega)
    rw [octets, e₀, e₁, e₂, ih]

/-- **Nothing is lost but the bits behind the last whole byte**: the groups that the bytes have in full. -/
theorem sextets_octets (ss : List Nat) (h : ∀ s ∈ ss, s < 64) :
    (sextets (octets ss)).take ((octets ss).length * 4 / 3) = ss.take ((octets ss).length * 4 / 3) := by
  fun_induction octets ss with
  | case1 => rfl
  | case2 => rfl
  | case3 s₀ s₁ =>
    simp only [List.forall_mem_cons] at h
    have e₀ : (s₀ * 4 + s₁ / 16) % 256 / 4 = s₀ := by omega
    simp only [sextets, List.length_singleton, UInt8.toNat_ofNat', Nat.reducePow, e₀]
    rfl
  | case4 s₀ s₁ s₂ =>
    simp only [List.forall_mem_cons] at h
    have e₀ : (s₀ * 4 + s₁ / 16) % 256 / 4 = s₀ := by omega
    have e₁ : (s₀ * 4 + s₁ / 16) % 256 % 4 * 16 + (s₁ * 16 + s₂ / 4) % 256 / 16 = s₁ := by omega
    simp only [sextets, List.length_cons, List.length_nil, UInt8.toNat_ofNat', Nat.reducePow, e₀, e₁]
    rfl
  | case5 s₀ s₁ s₂ s₃ ss ih =>
    simp only [List.forall_mem_cons] at h
    obtain ⟨h₀, h₁, h₂, h₃, h⟩ := h
    have e₀ : (s₀ * 4 + s₁ / 16) % 256 / 4 = s₀ := by omega
    have e₁ : (s₀ * 4 + s₁ / 16) % 256 % 4 * 16 + (s₁ * 16 + s₂ / 4) % 256 / 16 = s₁ := by omega
    have e₂ : (s₁ * 16 + s₂ / 4) % 256 % 16 * 4 + (s₂ * 64 + s₃) % 256 / 64 = s₂ := by omega
    have e₃ : (s₂ * 64 + s₃) % 256 % 64 = s₃ := by omega
    have hcount : ((octets ss).length + 1 + 1 + 1) * 4 / 3 = (octets ss).length * 4 / 3 + 4 := by omega
    simp only [sextets, List.length_cons, UInt8.toNat_ofNat', Nat.reducePow, e₀, e₁, e₂, e₃, hcount,
      List.take_succ_cons, ih h]

end Sextets
