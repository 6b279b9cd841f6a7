import WingPhp.Wmic
import WingPhp.Wmic.DecimalToString

/-!
# `WingWmic::get`, and the `VARIANT` it prints

The value of a `VARIANT` is a union of 8 bytes, little endian, and a pointer in it is its low half.
`format` is the `switch` on the type: every case takes a member of the union and a conversion of
`sprintf`.  The whole of it is behind a test of `bstrVal`, whatever the type (`getVariant_right_iff`).
-/

namespace WingPhp.Wmic

open Memory Strings Decimal

/-- The integer types. -/
inductive IntType where
  | i1
  | ui1
  | i2
  | ui2
  | int
  | i4
  | i8
  | uint
  | ui4
  | ui8
  deriving DecidableEq, Repr

/-- `VARTYPE`, as far as the `switch` tells them apart. -/
inductive VarType where
  | bstr
  | lpstr
  | lpwstr
  | integer (t : IntType)
  | void
  | r4
  | r8
  | decimal
  | bool
  | date
  | other
  deriving DecidableEq, Repr

/-- The words between the type and the value belong to a `DECIMAL`. -/
structure Variant where
  vt : VarType
  scale : BitVec 8
  sign : BitVec 8
  hi32 : BitVec 32
  payload : BitVec 64
  deriving DecidableEq, Repr

namespace Variant

variable (v : Variant)

/-- As an address. -/
def bstrVal : BitVec 32 := v.payload.setWidth 32

def decVal : DecVal := ⟨v.scale, v.sign, v.hi32, v.payload⟩

end Variant

structure SystemTime where
  wYear : Nat
  wMonth : Nat
  wDay : Nat
  wHour : Nat
  wMinute : Nat
  wSecond : Nat
  deriving DecidableEq, Repr

/-- What is outside: the memory, the code pages, the texts `%.4f` and `%.8f` make of a `float` and a
`double`, and `VariantTimeToSystemTime`. -/
structure Surroundings where
  memory : BitVec 32 → Ptr UInt8
  cp : CodePages
  float : BitVec 32 → List UInt8
  double : BitVec 64 → List UInt8
  systemTime : BitVec 64 → SystemTime

/-- Nothing in memory, and no text to anything. -/
def emptySurroundings : Surroundings :=
  ⟨fun _ => none, ⟨fun _ => none, fun _ => none, fun _ => none⟩, fun _ => [], fun _ => [],
    fun _ => ⟨0, 0, 0, 0, 0, 0⟩⟩

/-- `malloc`, `memset` and `sprintf`. -/
def formatted (size : Nat) (t : List UInt8) : Except Fault (Ptr UInt8) := do
  let res ← store (malloc size) 0 (t ++ [0])
  .ok (some res)

/-- `%d` and `%u`: the number that comes out of the member and its conversion. -/
def IntType.printed (payload : BitVec 64) : IntType → Int
  | .i1 | .ui1 => (payload.setWidth 8).toNat
  | .i2 => (payload.setWidth 16).toInt
  | .ui2 => (payload.setWidth 16).toNat
  | .int | .i4 => (payload.setWidth 32).toInt
  -- `bVal` again
  | .i8 => (payload.setWidth 8).toNat
  | .uint | .ui4 | .ui8 => (payload.setWidth 32).toNat

/-- `%8x`. -/
def hexText (n : Nat) : List UInt8 :=
  ((Nat.toDigits 16 n).map fun c => UInt8.ofNat c.toNat).leftpad 8 32

/-- `%0nd`. -/
def paddedText (n k : Nat) : List UInt8 := (intNumeral k).text.leftpad n 48

/-- `%04d-%02d-%02d %02d:%02d:%02d`. -/
def SystemTime.text (st : SystemTime) : List UInt8 :=
  paddedText 4 st.wYear ++ [45] ++ paddedText 2 st.wMonth ++ [45] ++ paddedText 2 st.wDay ++ [32] ++
    paddedText 2 st.wHour ++ [58] ++ paddedText 2 st.wMinute ++ [58] ++ paddedText 2 st.wSecond

/-- The `switch`. -/
def Variant.format (s : Surroundings) (v : Variant) : Except Fault (Ptr UInt8) :=
  match v.vt with
  | .bstr | .lpwstr => wingStrWcharToUtf8 s.cp (s.memory v.bstrVal)
  | .lpstr => do
    -- the size of a `size_t`: `sizeof` does not call `strlen`
    let size := 4
    let res ← memcpy (malloc size) 0 (s.memory v.bstrVal) (size - 1)
    .ok (some res)
  | .integer t => formatted 32 (intNumeral (t.printed v.payload)).text
  | .void => formatted 32 (hexText v.bstrVal.toNat)
  | .r4 => formatted 32 (s.float (v.payload.setWidth 32))
  | .r8 => formatted 32 (s.double v.payload)
  | .decimal => do
    let buf ← decimalToString v.decVal
    .ok (some buf)
  | .bool =>
    formatted 5 (if v.payload.setWidth 16 ≠ 0 then [84, 82, 85, 69] else [70, 65, 83, 76, 69])
  | .date => formatted 32 (s.systemTime v.payload).text
  | .other => .ok none

/-- `WingWmic::get`, with what the row's `Get` answers and leaves in `vtProp`. -/
def WingWmic.getVariant (w : WingWmic) (s : Surroundings) (hr : Hresult) (vtProp : Variant) :
    Except Fault (WingWmic × Ptr UInt8) :=
  if w.hasError then do
    through w.pEnumerator
    .ok ({ w with pEnumerator := false }, none)
  else do
    through w.pclsObj
    if ¬ Failed hr ∧ vtProp.bstrVal ≠ 0 then
      let res ← vtProp.format s
      .ok (w, res)
    else .ok (w, none)

/-! ## What it should print -/

/-- The value, by the width and the sign of the type. -/
def IntType.value (payload : BitVec 64) : IntType → Int
  | .i1 => (payload.setWidth 8).toInt
  | .ui1 => (payload.setWidth 8).toNat
  | .i2 => (payload.setWidth 16).toInt
  | .ui2 => (payload.setWidth 16).toNat
  | .int | .i4 => (payload.setWidth 32).toInt
  | .i8 => payload.toInt
  | .uint | .ui4 => (payload.setWidth 32).toNat
  | .ui8 => payload.toNat

/-- A text in a block of its own. -/
def Returns (r : Except Fault (WingWmic × Ptr UInt8)) (t : List UInt8) : Prop :=
  ∃ w res, r = .ok (w, some res) ∧ loadText (some res) = .ok t

/-- The values that the member printed holds. -/
def IntType.Kept (payload : BitVec 64) : IntType → Prop
  | .i1 => 0 ≤ IntType.value payload .i1
  | .i8 => 0 ≤ IntType.value payload .i8 ∧ IntType.value payload .i8 < 0x100
  | .ui8 => IntType.value payload .ui8 < 0x100000000
  | _ => True

theorem printed_eq_value_iff (payload : BitVec 64) (t : IntType) :
    t.printed payload = t.value payload ↔ t.Kept payload := by
  have hlt := payload.isLt
  cases t with
  | i1 =>
    simp only [IntType.printed, IntType.value, IntType.Kept, BitVec.toInt_eq_toNat_cond, BitVec.toNat_setWidth]
    omega
  | i8 =>
    simp only [IntType.printed, IntType.value, IntType.Kept, BitVec.toInt_eq_toNat_cond, BitVec.toNat_setWidth]
    omega
  | ui8 =>
    simp only [IntType.printed, IntType.value, IntType.Kept, BitVec.toNat_setWidth]
    omega
  | _ => exact iff_of_true rfl trivial

/-- The longest is a sign and ten digits. -/
theorem length_printed_le (payload : BitVec 64) (t : IntType) :
    (intNumeral (t.printed payload)).text.length ≤ 11 := by
  refine length_intNumeral_text_le (by decide) ?_
  cases t <;> simp only [IntType.printed, BitVec.toInt_eq_toNat_cond, BitVec.toNat_setWidth] <;> omega

theorem formatted_text {size : Nat} {t : List UInt8} (ht : 0 ∉ t) (hroom : t.length < size) :
    ∃ res, formatted size t = .ok (some res) ∧ loadText (some res) = .ok t := by
  have hmalloc : t.length < (malloc size : List UInt8).length := by
    rw [length_malloc]
    exact hroom
  obtain ⟨res, hstore, -, htext⟩ := store_text ht hmalloc
  exact ⟨res, by rw [formatted, hstore, ok_bind], htext⟩

/-- The front of a text, with a zero behind it. -/
theorem loadText_front {t : List UInt8} (ht : 0 ∉ t) (rest : List UInt8) (n : Nat) :
    loadText (some ((t ++ 0 :: rest).take n ++ [0])) = .ok (t.take n) := by
  rcases Nat.lt_or_ge t.length n with hlt | hge
  · obtain ⟨k, rfl⟩ : ∃ k, n = t.length + (k + 1) := ⟨n - t.length - 1, by omega⟩
    rw [List.take_length_add_append, List.take_succ_cons, List.append_assoc, List.cons_append,
      loadText_terminated ht, List.take_of_length_le (by omega)]
  · rw [List.take_append_of_le_length hge]
    exact loadText_terminated (fun h => ht (List.mem_of_mem_take h)) []

/-! ## What it prints -/

section
variable {w : WingWmic} {hr : Hresult} (s : Surroundings) {v : Variant}

/-- A row that answers. -/
theorem getVariant_of_row (hw : w.hasError = false) (hrow : w.pclsObj = true) (hok : ¬ Failed hr)
    (hguard : v.bstrVal ≠ 0) : w.getVariant s hr v = v.format s >>= fun res => .ok (w, res) := by
  rw [WingWmic.getVariant, hw, if_neg Bool.false_ne_true, hrow, if_pos ⟨hok, hguard⟩]
  rfl

/-- **What the guard takes for `NULL` is not printed**, of any type. -/
theorem getVariant_of_null (hw : w.hasError = false) (hrow : w.pclsObj = true) (hguard : v.bstrVal = 0) :
    w.getVariant s hr v = .ok (w, none) := by
  rw [WingWmic.getVariant, hw, if_neg Bool.false_ne_true, hrow, if_neg fun h => h.2 hguard]
  rfl

theorem returns_of_format (hw : w.hasError = false) (hrow : w.pclsObj = true) (hok : ¬ Failed hr)
    (hguard : v.bstrVal ≠ 0) {res t u : List UInt8} (hformat : v.format s = .ok (some res))
    (htext : loadText (some res) = .ok t) : Returns (w.getVariant s hr v) u ↔ t = u := by
  rw [getVariant_of_row s hw hrow hok hguard, hformat, ok_bind]
  constructor
  · rintro ⟨w', res', hret, hu⟩
    cases hret
    exact Except.ok.inj (htext.symm.trans hu)
  · rintro rfl
    exact ⟨w, res, rfl, htext⟩

theorem getVariant_integer (hw : w.hasError = false) (hrow : w.pclsObj = true) (hok : ¬ Failed hr)
    {t : IntType} (hvt : v.vt = .integer t) :
    Returns (w.getVariant s hr v) (intNumeral (t.value v.payload)).text ↔
      v.bstrVal ≠ 0 ∧ t.Kept v.payload := by
  by_cases hguard : v.bstrVal = 0
  · rw [getVariant_of_null s hw hrow hguard]
    refine iff_of_false ?_ fun h => h.1 hguard
    rintro ⟨w', res, hret, -⟩
    cases hret
  · have hlen := length_printed_le v.payload t
    obtain ⟨res, hformat, htext⟩ :=
      @formatted_text 32 _ (intNumeral (t.printed v.payload)).zero_not_mem_text (by omega)
    have hswitch : v.format s = .ok (some res) := by
      rw [Variant.format, hvt]
      exact hformat
    rw [returns_of_format s hw hrow hok hguard hswitch htext, intNumeral_text_inj, printed_eq_value_iff]
    exact ⟨fun h => ⟨hguard, h⟩, fun h => h.2⟩

theorem getVariant_lpstr (hw : w.hasError = false) (hrow : w.pclsObj = true) (hok : ¬ Failed hr)
    (hvt : v.vt = .lpstr) (hguard : v.bstrVal ≠ 0) {t rest : List UInt8} (ht : 0 ∉ t)
    (hmem : s.memory v.bstrVal = some (t ++ 0 :: rest)) :
    Returns (w.getVariant s hr v) t ↔ t.length ≤ 3 ∧ 3 ≤ (t ++ 0 :: rest).length := by
  by_cases hroom : 3 ≤ (t ++ 0 :: rest).length
  · have hlen : ((t ++ 0 :: rest).take 3).length = 3 := List.length_take_of_le hroom
    have hcopy := @memcpy_malloc UInt8 _ ((t ++ 0 :: rest).take 3) ((t ++ 0 :: rest).drop 3) 4 (by omega)
    rw [List.take_append_drop, hlen, ← hmem] at hcopy
    have hswitch : v.format s = .ok (some ((t ++ 0 :: rest).take 3 ++ [0])) := by
      rw [Variant.format, hvt]
      show (memcpy (malloc 4) 0 (s.memory v.bstrVal) 3 >>= _) = _
      rw [hcopy]
      rfl
    rw [returns_of_format s hw hrow hok hguard hswitch (loadText_front ht rest 3), List.take_eq_self_iff]
    exact ⟨fun h => ⟨h, hroom⟩, fun h => h.1⟩
  · refine iff_of_false ?_ fun h => hroom h.2
    rintro ⟨w', res, hret, -⟩
    have hcopy : memcpy (malloc 4) 0 (s.memory v.bstrVal) 3 = .error .outside := by
      rw [memcpy, hmem, load, if_neg (by decide), if_neg hroom]
      rfl
    have hswitch : v.format s = .error .outside := by
      rw [Variant.format, hvt]
      show (memcpy (malloc 4) 0 (s.memory v.bstrVal) 3 >>= _) = _
      rw [hcopy]
      rfl
    rw [getVariant_of_row s hw hrow hok hguard, hswitch] at hret
    cases hret

/-- **An integer is printed** when its low half is not 0 and the member printed holds it, and a string
when three bytes are all of it. -/
theorem getVariant_right_iff (hw : w.hasError = false) (hrow : w.pclsObj = true) (hok : ¬ Failed hr) :
    (∀ t, v.vt = .integer t →
      (Returns (w.getVariant s hr v) (intNumeral (t.value v.payload)).text ↔
        v.bstrVal ≠ 0 ∧ t.Kept v.payload)) ∧
    (v.vt = .lpstr → v.bstrVal ≠ 0 → ∀ t rest, 0 ∉ t → s.memory v.bstrVal = some (t ++ 0 :: rest) →
      (Returns (w.getVariant s hr v) t ↔ t.length ≤ 3 ∧ 3 ≤ (t ++ 0 :: rest).length)) :=
  ⟨fun _ hvt => getVariant_integer s hw hrow hok hvt,
    fun hvt hguard _ _ ht hmem => getVariant_lpstr s hw hrow hok hvt hguard ht hmem⟩

end

/-- 4294967295. -/
theorem getVariant_uint : Returns
    (WingWmic.getVariant ⟨false, true, true, true, true⟩ emptySurroundings 0
      ⟨.integer .ui8, 0, 0, 0, 0xffffffff⟩)
    (intNumeral 4294967295).text :=
  ((getVariant_right_iff emptySurroundings rfl rfl (by decide)).1 .ui8 rfl).mpr
    ⟨by decide, (by decide : IntType.value 0xffffffff .ui8 < 0x100000000)⟩

/-- 0 is not printed, and neither is -1 of one byte. -/
theorem getVariant_zero :
    WingWmic.getVariant ⟨false, true, true, true, true⟩ emptySurroundings 0 ⟨.integer .i4, 0, 0, 0, 0⟩ =
        .ok (⟨false, true, true, true, true⟩, none) ∧
      ¬ Returns
        (WingWmic.getVariant ⟨false, true, true, true, true⟩ emptySurroundings 0 ⟨.integer .i4, 0, 0, 0, 0⟩)
        (intNumeral 0).text ∧
      ¬ Returns
        (WingWmic.getVariant ⟨false, true, true, true, true⟩ emptySurroundings 0 ⟨.integer .i1, 0, 0, 0, 0xff⟩)
        (intNumeral (-1)).text := by
  have succeeded : ¬ Failed 0 := by decide
  refine ⟨rfl, ?_, ?_⟩
  · intro hzero
    have hkept := (getVariant_integer (v := ⟨.integer .i4, 0, 0, 0, 0⟩) (t := .i4) emptySurroundings rfl rfl
      succeeded rfl).mp hzero
    exact hkept.1 rfl
  · intro hone
    have hkept := (getVariant_integer (v := ⟨.integer .i1, 0, 0, 0, 0xff⟩) (t := .i1) emptySurroundings rfl rfl
      succeeded rfl).mp hone
    exact absurd hkept.2 (by decide : ¬ 0 ≤ IntType.value 0xff .i1)

end WingPhp.Wmic
