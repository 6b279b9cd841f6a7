import Mathlib.Data.List.TakeWhile
import Mathlib.Data.Nat.Bitwise
import WingPhp.Lib.Sextets

/-!
# `BASE64_Encode` and `BASE64_Decode`

A buffer is the list of what it holds from the pointer on.  Its first `inputCount` characters are read, and it holds
that many (`Input`).  A function gives what it returns and what it has written, also where it fails in the middle.

`base64Decode_base64Encode`: every text of bytes is read back, also with blanks in front and line ends behind; but
not a line end behind no bytes.
`base64Decode_iff`: which texts are read, and that what is written fits in the buffer a call without one asks for.
-/

namespace WingPhp.Base64

open Sextets

/-- `DATA_BIN2ASCII` -/
def dataBin2Ascii : List UInt8 :=
  "ABCDEFGHIJKLMNOPQRSTUVWXYZabcdefghijklmnopqrstuvwxyz0123456789+/".toList.map fun c => UInt8.ofNat c.toNat

/-- `DATA_ASCII2BIN` -/
def dataAscii2Bin : List UInt8 :=
  [0xFF, 0xFF, 0xFF, 0xFF, 0xFF, 0xFF, 0xFF, 0xFF, 0xFF, 0xE0, 0xF0, 0xFF, 0xFF, 0xF1, 0xFF, 0xFF,
    0xFF, 0xFF, 0xFF, 0xFF, 0xFF, 0xFF, 0xFF, 0xFF, 0xFF, 0xFF, 0xFF, 0xFF, 0xFF, 0xFF, 0xFF, 0xFF,
    0xE0, 0xFF, 0xFF, 0xFF, 0xFF, 0xFF, 0xFF, 0xFF, 0xFF, 0xFF, 0xFF, 0x3E, 0xFF, 0xF2, 0xFF, 0x3F,
    0x34, 0x35, 0x36, 0x37, 0x38, 0x39, 0x3A, 0x3B, 0x3C, 0x3D, 0xFF, 0xFF, 0xFF, 0x00, 0xFF, 0xFF,
    0xFF, 0x00, 0x01, 0x02, 0x03, 0x04, 0x05, 0x06, 0x07, 0x08, 0x09, 0x0A, 0x0B, 0x0C, 0x0D, 0x0E,
    0x0F, 0x10, 0x11, 0x12, 0x13, 0x14, 0x15, 0x16, 0x17, 0x18, 0x19, 0xFF, 0xFF, 0xFF, 0xFF, 0xFF,
    0xFF, 0x1A, 0x1B, 0x1C, 0x1D, 0x1E, 0x1F, 0x20, 0x21, 0x22, 0x23, 0x24, 0x25, 0x26, 0x27, 0x28,
    0x29, 0x2A, 0x2B, 0x2C, 0x2D, 0x2E, 0x2F, 0x30, 0x31, 0x32, 0x33, 0xFF, 0xFF, 0xFF, 0xFF, 0xFF]

def bin2Ascii (s : Nat) : UInt8 := dataBin2Ascii.getD s 0

def ascii2Bin (ch : UInt8) : UInt8 := dataAscii2Bin.getD ch.toNat 0

/-- `=` -/
def pad : UInt8 := 61

/-- `inputBuffer` and `inputCount`. -/
structure Input where
  buffer : List UInt8
  count : Int32
  inside : count.toInt ≤ buffer.length

/-- What is read. -/
def Input.text (input : Input) : List UInt8 := input.buffer.take input.count.toInt.toNat

/-! ## `BASE64_Encode` -/

/-- `i >= 3` -/
def encodeGroup (b₀ b₁ b₂ : UInt8) : List UInt8 :=
  [bin2Ascii (b₀.toNat >>> 2), bin2Ascii ((b₀.toNat <<< 4 ||| b₁.toNat >>> 4) &&& 0x3F),
    bin2Ascii ((b₁.toNat <<< 2 ||| b₂.toNat >>> 6) &&& 0x3F), bin2Ascii (b₂.toNat &&& 0x3F)]

/-- `i` is 1 or 2; in the first case `b₁` is 0. -/
def encodeLast (i : Nat) (b₀ b₁ : UInt8) : List UInt8 :=
  [bin2Ascii (b₀.toNat >>> 2), bin2Ascii ((b₀.toNat <<< 4 ||| b₁.toNat >>> 4) &&& 0x3F),
    if i = 1 then pad else bin2Ascii ((b₁.toNat <<< 2) &&& 0x3F), pad]

/-- The loop, on the `i` bytes that are left. -/
def encodeLoop : List UInt8 → List UInt8
  | [] => []
  | [b₀] => encodeLast 1 b₀ 0
  | [b₀, b₁] => encodeLast 2 b₀ b₁
  | b₀ :: b₁ :: b₂ :: bytes => encodeGroup b₀ b₁ b₂ ++ encodeLoop bytes

/-- `TEXT('/0')` is a constant of two characters, of which the second is kept. -/
def terminator : UInt8 := 48

/-- From 1610612734 bytes on the number of characters is no `INT`. -/
def base64Encode (input : Option Input) (outputBuffer : Bool) : Int32 × List UInt8 :=
  match input with
  | none => (-1, [])
  | some input =>
    if input.count < 0 then (-1, [])
    else ((input.count + 2) / 3 * 4, if outputBuffer then encodeLoop input.text ++ [terminator] else [])

/-! ## `BASE64_Decode` -/

/-- `(ch < 0) || (ch >= 0x80)`, of a signed character. -/
def notAscii (ch : UInt8) : Bool := 0x80 ≤ ch

/-- `B64_WS` -/
def b64Ws : UInt8 := 0xE0

/-- `B64_NOT_BASE64` -/
def b64NotBase64 (a : UInt8) : Bool := a ||| 0x13 = 0xF3

/-- The first loop; `none` where the call fails. -/
def skipFront : List UInt8 → Option (List UInt8)
  | [] => some []
  | ch :: text =>
    if notAscii ch then none
    else if ascii2Bin ch = b64Ws then skipFront text
    else some (ch :: text)

/-- The second loop, on the text from its end. -/
def skipBack : List UInt8 → Option (List UInt8)
  | [] => some []
  | ch :: text =>
    if text.length + 1 < 4 then some (ch :: text)
    else if notAscii ch then none
    else if b64NotBase64 (ascii2Bin ch) then skipBack text
    else some (ch :: text)

def strip (text : List UInt8) : Option (List UInt8) :=
  (skipFront text).bind fun t => (skipBack t.reverse).map List.reverse

/-- The loop over `j`: what has been read in front of the first `=`. -/
def readGroup : List UInt8 → Option (List UInt8)
  | [] => some []
  | ch :: text =>
    if notAscii ch then none
    else if ch = pad then some []
    else if ascii2Bin ch &&& 0x80 ≠ 0 then none
    else (readGroup text).map (ascii2Bin ch :: ·)

/-- The loop over `i`, which stays below `inputCount`. -/
def decodeLoop (inputCount : Nat) : Nat → List UInt8 → Int × List UInt8
  | i, c₀ :: c₁ :: c₂ :: c₃ :: text =>
    match readGroup [c₀, c₁, c₂, c₃] with
    | none => (-2, [])
    | some [b₀, b₁, b₂, b₃] =>
      let rest := decodeLoop inputCount (i + 4) text
      (rest.1, UInt8.ofNat (b₀.toNat <<< 2 ||| b₁.toNat >>> 4) :: UInt8.ofNat (b₁.toNat <<< 4 ||| b₂.toNat >>> 2) ::
        UInt8.ofNat (b₂.toNat <<< 6 ||| b₃.toNat) :: rest.2)
    | some [b₀, b₁, b₂] =>
      (((i >>> 2) * 3 + 2 : Nat),
        [UInt8.ofNat (b₀.toNat <<< 2 ||| b₁.toNat >>> 4), UInt8.ofNat (b₁.toNat <<< 4 ||| b₂.toNat >>> 2)])
    | some [b₀, b₁] => (((i >>> 2) * 3 + 1 : Nat), [UInt8.ofNat (b₀.toNat <<< 2 ||| b₁.toNat >>> 4)])
    | some _ => (-2, [])
  | _, _ => (((inputCount >>> 2) * 3 : Nat), [])

def base64Decode (input : Option Input) (outputBuffer : Bool) : Int32 × List UInt8 :=
  match input with
  | none => (-1, [])
  | some input =>
    if input.count < 0 then (-1, [])
    else
      match strip input.text with
      | none => (-2, [])
      | some text =>
        if text.length % 4 ≠ 0 then (-2, [])
        else if outputBuffer then
          let written := decodeLoop text.length 0 text
          (Int32.ofInt written.1, written.2)
        else (Int32.ofNat ((text.length >>> 2) * 3), [])

/-! ## Counts -/

theorem Input.not_neg {input : Input} (h : 0 ≤ input.count) : ¬ input.count < 0 := Int32.not_lt.mpr h

theorem Input.length_text {input : Input} (h : 0 ≤ input.count) : (input.text.length : Int) = input.count.toInt := by
  have hcount : 0 ≤ input.count.toInt := Int32.le_iff_toInt_le.mp h
  have hinside := input.inside
  rw [Input.text, List.length_take]
  omega

theorem Input.length_text_lt {input : Input} (h : 0 ≤ input.count) : input.text.length < 2 ^ 31 := by
  have hlength := length_text h
  have hlt := input.count.toInt_lt
  omega

theorem Input.ofNat_length {input : Input} (h : 0 ≤ input.count) : Int32.ofNat input.text.length = input.count := by
  rw [← Int32.ofInt_eq_ofNat, length_text h, Int32.ofInt_toInt]

theorem ofNat_nonneg {n : Nat} (h : n < 2 ^ 31) : 0 ≤ Int32.ofNat n := by
  rw [Int32.le_iff_toInt_le, Int32.toInt_ofNat_of_lt h]
  exact Int.natCast_nonneg n

/-- The number of characters, while it is an `INT`. -/
theorem characters_eq {n : Nat} (h : n ≤ 1610612733) : (Int32.ofNat n + 2) / 3 * 4 = Int32.ofNat ((n + 2) / 3 * 4) := by
  have hadd : Int32.ofNat n + 2 = Int32.ofInt (n + 2 : Int) := by
    rw [Int32.ofInt_add, Int32.ofInt_eq_ofNat]
    rfl
  have hdiv : (Int32.ofInt (n + 2 : Int)) / 3 = Int32.ofInt ((n + 2 : Int).tdiv 3) := by
    rw [Int32.ofInt_tdiv (by rw [show Int32.minValue.toInt = -2147483648 from rfl]; omega)
      (by rw [show Int32.maxValue.toInt = 2147483647 from rfl]; omega) (by decide) (by decide)]
    rfl
  have hnat : (n + 2 : Int).tdiv 3 * 4 = ((n + 2) / 3 * 4 : Nat) := by
    rw [Int.tdiv_eq_ediv_of_nonneg (by omega)]
    push_cast
    rfl
  rw [hadd, hdiv, ← Int32.ofInt_eq_ofNat, ← hnat, Int32.ofInt_mul]
  rfl

/-! ## The alphabet -/

/-- A character that stands for six bits. -/
def IsLetter (ch : UInt8) : Prop := ch < 0x80 ∧ ch ≠ pad ∧ ascii2Bin ch &&& 0x80 = 0

instance (ch : UInt8) : Decidable (IsLetter ch) := inferInstanceAs (Decidable (_ ∧ _ ∧ _))

theorem letter_all : ∀ s, s < 64 →
    IsLetter (bin2Ascii s) ∧ (ascii2Bin (bin2Ascii s)).toNat = s ∧ ¬ b64NotBase64 (ascii2Bin (bin2Ascii s)) ∧
      ascii2Bin (bin2Ascii s) ≠ b64Ws := by
  decide +kernel

theorem value_all : ∀ n, n < 256 → IsLetter (UInt8.ofNat n) →
    (ascii2Bin (UInt8.ofNat n)).toNat < 64 ∧ bin2Ascii (ascii2Bin (UInt8.ofNat n)).toNat = UInt8.ofNat n := by
  decide +kernel

theorem IsLetter.value {ch : UInt8} (h : IsLetter ch) :
    (ascii2Bin ch).toNat < 64 ∧ bin2Ascii (ascii2Bin ch).toNat = ch := by
  have hall := value_all ch.toNat ch.toNat_lt
  rw [UInt8.ofNat_toNat] at hall
  exact hall h

/-! ## What is written -/

theorem and_sextet (n : Nat) : n &&& 0x3F = n % 64 := Nat.and_two_pow_sub_one_eq_mod n 6

/-- The bits of two bytes side by side. -/
theorem join {a b : Nat} (i : Nat) (h : b < 2 ^ i) : a <<< i ||| b = a * 2 ^ i + b := by
  rw [← Nat.shiftLeft_add_eq_or_of_lt h, Nat.shiftLeft_eq]

theorem encodeGroup_eq (b₀ b₁ b₂ : UInt8) : encodeGroup b₀ b₁ b₂ = (sextets [b₀, b₁, b₂]).map bin2Ascii := by
  have h₁ := b₁.toNat_lt
  have h₂ := b₂.toNat_lt
  have e₀ : b₁.toNat >>> 4 = b₁.toNat / 16 := Nat.shiftRight_eq_div_pow _ _
  have e₁ : b₂.toNat >>> 6 = b₂.toNat / 64 := Nat.shiftRight_eq_div_pow _ _
  have e₂ : (b₀.toNat * 2 ^ 4 + b₁.toNat / 16) % 64 = b₀.toNat % 4 * 16 + b₁.toNat / 16 := by omega
  have e₃ : (b₁.toNat * 2 ^ 2 + b₂.toNat / 64) % 64 = b₁.toNat % 16 * 4 + b₂.toNat / 64 := by omega
  rw [encodeGroup, and_sextet, and_sextet, and_sextet, e₀, e₁, join 4 (by omega), join 2 (by omega), e₂, e₃,
    Nat.shiftRight_eq_div_pow]
  rfl

theorem encodeLast_one (b₀ : UInt8) : encodeLast 1 b₀ 0 = (sextets [b₀]).map bin2Ascii ++ [pad, pad] := by
  have e₀ : b₀.toNat * 2 ^ 4 % 64 = b₀.toNat % 4 * 16 := by omega
  have e₁ : (0 : UInt8).toNat >>> 4 = 0 := rfl
  rw [encodeLast, if_pos rfl, and_sextet, e₁, Nat.or_zero, Nat.shiftLeft_eq, e₀, Nat.shiftRight_eq_div_pow]
  rfl

theorem encodeLast_two (b₀ b₁ : UInt8) : encodeLast 2 b₀ b₁ = (sextets [b₀, b₁]).map bin2Ascii ++ [pad] := by
  have h₁ := b₁.toNat_lt
  have e₀ : b₁.toNat >>> 4 = b₁.toNat / 16 := Nat.shiftRight_eq_div_pow _ _
  have e₁ : (b₀.toNat * 2 ^ 4 + b₁.toNat / 16) % 64 = b₀.toNat % 4 * 16 + b₁.toNat / 16 := by omega
  have e₂ : b₁.toNat * 2 ^ 2 % 64 = b₁.toNat % 16 * 4 := by omega
  rw [encodeLast, if_neg (by decide), and_sextet, and_sextet, e₀, join 4 (by omega), e₁, Nat.shiftLeft_eq, e₂,
    Nat.shiftRight_eq_div_pow]
  rfl

/-- The characters that fill up the last group. -/
def padding (n : Nat) : List UInt8 := List.replicate ((3 - n % 3) % 3) pad

theorem encodeLoop_eq (bytes : List UInt8) :
    encodeLoop bytes = (sextets bytes).map bin2Ascii ++ padding bytes.length := by
  fun_induction encodeLoop bytes with
  | case1 => rfl
  | case2 b₀ => exact encodeLast_one b₀
  | case3 b₀ b₁ => exact encodeLast_two b₀ b₁
  | case4 b₀ b₁ b₂ bytes ih =>
    have hpad : padding (bytes.length + 1 + 1 + 1) = padding bytes.length := by
      rw [padding, padding, Nat.add_assoc, Nat.add_assoc, Nat.add_mod_right]
    rw [ih, encodeGroup_eq, sextets_group b₀ b₁ b₂ bytes, List.map_append, List.append_assoc]
    simp only [List.length_cons, hpad]

theorem length_encodeLoop (bytes : List UInt8) : (encodeLoop bytes).length = (bytes.length + 2) / 3 * 4 := by
  rw [encodeLoop_eq, List.length_append, List.length_map, length_sextets, padding, List.length_replicate]
  omega

/-! ## What is read -/

def letters (text : List UInt8) : List UInt8 := text.takeWhile (· ≠ pad)

def values (text : List UInt8) : List Nat := (letters text).map fun ch => (ascii2Bin ch).toNat

/-- Letters up to the first `=`, which may stand in the third or fourth place of a group; what is behind it is not
looked at. -/
structure Readable (text : List UInt8) : Prop where
  letter : ∀ ch ∈ letters text, IsLetter ch
  rest : (letters text).length = text.length ∨ 2 ≤ (letters text).length % 4

theorem readGroup_some {text bs : List UInt8} (h : readGroup text = some bs) :
    (∀ ch ∈ letters text, IsLetter ch) ∧ bs = (letters text).map ascii2Bin := by
  induction text generalizing bs with
  | nil =>
    obtain rfl := Option.some.inj h
    exact ⟨by simp [letters], rfl⟩
  | cons ch text ih =>
    rw [readGroup] at h
    split_ifs at h with hascii hpad hbit
    · obtain rfl := Option.some.inj h
      simp [letters, hpad]
    · obtain ⟨bs', hbs', rfl⟩ := Option.map_eq_some_iff.mp h
      obtain ⟨hletter, rfl⟩ := ih hbs'
      have hch : IsLetter ch := ⟨by simpa [notAscii] using hascii, hpad, by simpa using hbit⟩
      have hcons : letters (ch :: text) = ch :: letters text := by simp [letters, hpad]
      rw [hcons]
      exact ⟨List.forall_mem_cons.mpr ⟨hch, hletter⟩, rfl⟩

theorem readGroup_none {text : List UInt8} (h : readGroup text = none) : ∃ ch ∈ letters text, ¬ IsLetter ch := by
  induction text with
  | nil => cases h
  | cons ch text ih =>
    rw [readGroup] at h
    have hcons : ch ≠ pad → letters (ch :: text) = ch :: letters text := fun hpad => by simp [letters, hpad]
    split_ifs at h with hascii hpad hbit
    · have hlarge : ¬ ch < 0x80 := by simpa [notAscii] using hascii
      have hpad : ch ≠ pad := by
        rintro rfl
        exact hlarge (by decide)
      exact ⟨ch, by simp [hcons hpad], fun hch => hlarge hch.1⟩
    · exact ⟨ch, by simp [hcons hpad], fun hch => hbit hch.2.2⟩
    · obtain ⟨ch', hmem, hch'⟩ := ih (Option.map_eq_none_iff.mp h)
      exact ⟨ch', by simp [hcons hpad, hmem], hch'⟩

/-- A group without `=` in front. -/
theorem letters_append {group : List UInt8} (text : List UInt8) (h : (letters group).length = group.length) :
    letters group = group ∧ letters (group ++ text) = group ++ letters text := by
  have hgroup : letters group = group := (List.takeWhile_prefix _).eq_of_length h
  refine ⟨hgroup, ?_⟩
  rw [letters, List.takeWhile_append]
  exact if_pos h

/-- A group with `=` in front. -/
theorem letters_append_of_lt {group : List UInt8} (text : List UInt8) (h : (letters group).length < group.length) :
    letters (group ++ text) = letters group := by
  rw [letters, List.takeWhile_append]
  exact if_neg (Nat.ne_of_lt h)

theorem mem_letters_append {group : List UInt8} (text : List UInt8) {ch : UInt8} (h : ch ∈ letters group) :
    ch ∈ letters (group ++ text) := by
  have hle : (letters group).length ≤ group.length := (List.takeWhile_prefix _).length_le
  rcases Nat.lt_or_eq_of_le hle with hlt | heq
  · rwa [letters_append_of_lt text hlt]
  · obtain ⟨hgroup, happend⟩ := letters_append text heq
    rw [happend]
    rw [hgroup] at h
    exact List.mem_append_left _ h

theorem shift_two (a : Nat) {b : Nat} (h : b < 64) : a <<< 2 ||| b >>> 4 = a * 4 + b / 16 := by
  have e : b >>> 4 = b / 16 := Nat.shiftRight_eq_div_pow _ _
  rw [e, join 2 (show b / 16 < 2 ^ 2 by omega)]
  omega

theorem shift_four (a : Nat) {b : Nat} (h : b < 64) : a <<< 4 ||| b >>> 2 = a * 16 + b / 4 := by
  have e : b >>> 2 = b / 4 := Nat.shiftRight_eq_div_pow _ _
  rw [e, join 4 (show b / 4 < 2 ^ 4 by omega)]
  omega

theorem shift_six (a : Nat) {b : Nat} (h : b < 64) : a <<< 6 ||| b = a * 64 + b := join 6 h

/-- The numbers a group has in front of `=`. -/
theorem values_of_readGroup {group bs : List UInt8} (h : readGroup group = some bs) :
    values group = bs.map UInt8.toNat ∧ (letters group).length = bs.length ∧ ∀ b ∈ bs, b.toNat < 64 := by
  obtain ⟨hletter, rfl⟩ := readGroup_some h
  refine ⟨by rw [List.map_map]; rfl, (List.length_map _).symm, ?_⟩
  intro b hb
  obtain ⟨ch, hch, rfl⟩ := List.mem_map.mp hb
  exact (hletter ch hch).value.1

/-- A group without `=` in front of a text. -/
theorem readable_append {group : List UInt8} (text : List UInt8) (hletter : ∀ ch ∈ letters group, IsLetter ch)
    (hlength : (letters group).length = 4) (hgroup : group.length = 4) :
    Readable (group ++ text) ↔ Readable text := by
  have happend := (letters_append text (hlength.trans hgroup.symm)).2
  have hself := (letters_append text (hlength.trans hgroup.symm)).1
  constructor
  · intro h
    have hrest := h.rest
    rw [happend, List.length_append, List.length_append] at hrest
    refine ⟨fun ch hch => h.letter ch ?_, by omega⟩
    rw [happend]
    exact List.mem_append_right _ hch
  · intro h
    have hrest := h.rest
    refine ⟨fun ch hch => ?_, ?_⟩
    · rw [happend, List.mem_append] at hch
      rcases hch with hch | hch
      · exact hletter ch (by rwa [hself])
      · exact h.letter ch hch
    · rw [happend, List.length_append, List.length_append]
      omega

/-- A group with `=` in front of a text. -/
theorem readable_append_of_lt {group : List UInt8} (text : List UInt8) (hletter : ∀ ch ∈ letters group, IsLetter ch)
    (hlength : (letters group).length < 4) (hgroup : group.length = 4) :
    Readable (group ++ text) ↔ 2 ≤ (letters group).length := by
  have happend : letters (group ++ text) = letters group := letters_append_of_lt text (by omega)
  constructor
  · intro h
    have hrest := h.rest
    rw [happend, List.length_append] at hrest
    omega
  · intro h
    refine ⟨fun ch hch => hletter ch (by rwa [happend] at hch), Or.inr ?_⟩
    rw [happend]
    omega

theorem values_append {group : List UInt8} (text : List UInt8) (h : (letters group).length = group.length) :
    values (group ++ text) = values group ++ values text := by
  obtain ⟨hgroup, happend⟩ := letters_append text h
  rw [values, happend, values, hgroup, List.map_append]
  rfl

theorem values_append_of_lt {group : List UInt8} (text : List UInt8) (h : (letters group).length < group.length) :
    values (group ++ text) = values group := by
  rw [values, letters_append_of_lt text h]
  rfl

/-- **The loop finds the bytes of the letters**, and fails where the text is not readable. -/
theorem decodeLoop_eq (inputCount i : Nat) (text : List UInt8) (hcount : inputCount = i + text.length)
    (hi : i % 4 = 0) (h4 : text.length % 4 = 0) :
    (Readable text → decodeLoop inputCount i text =
        (((i / 4 * 3 + (octets (values text)).length : Nat) : Int), octets (values text))) ∧
      (¬ Readable text → (decodeLoop inputCount i text).1 = -2) := by
  fun_induction decodeLoop inputCount i text with
  | case1 i c₀ c₁ c₂ c₃ text hnone =>
    obtain ⟨ch, hmem, hch⟩ := readGroup_none hnone
    refine ⟨fun h => absurd (h.letter ch ?_) hch, fun _ => rfl⟩
    exact mem_letters_append text hmem
  | case2 i c₀ c₁ c₂ c₃ text b₀ b₁ b₂ b₃ hsome rest ih =>
    obtain ⟨hvalues, hlength, hlt⟩ := values_of_readGroup hsome
    have hread := readable_append text (readGroup_some hsome).1 hlength rfl
    have hall : values (c₀ :: c₁ :: c₂ :: c₃ :: text) =
        b₀.toNat :: b₁.toNat :: b₂.toNat :: b₃.toNat :: values text := by
      have happend := values_append text hlength
      rw [hvalues] at happend
      exact happend
    simp only [List.forall_mem_cons] at hlt
    simp only [List.length_cons] at hcount h4
    obtain ⟨ihread, ihnot⟩ := ih (by omega) (by omega) (by omega)
    constructor
    · intro h
      have hrest : rest = _ := ihread (hread.mp h)
      have hdiv : (i + 4) / 4 * 3 + (octets (values text)).length =
          i / 4 * 3 + ((octets (values text)).length + 3) := by omega
      rw [hrest, hall, octets, shift_two _ hlt.2.1, shift_four _ hlt.2.2.1, shift_six _ hlt.2.2.2.1, hdiv]
      rfl
    · intro h
      exact ihnot fun htext => h (hread.mpr htext)
  | case3 i c₀ c₁ c₂ c₃ text b₀ b₁ b₂ hsome =>
    obtain ⟨hvalues, hlength, hlt⟩ := values_of_readGroup hsome
    have hthree : (letters [c₀, c₁, c₂, c₃]).length = 3 := hlength
    have hread := readable_append_of_lt text (readGroup_some hsome).1 (by omega) rfl
    have hall : values (c₀ :: c₁ :: c₂ :: c₃ :: text) = [b₀.toNat, b₁.toNat, b₂.toNat] :=
      (values_append_of_lt text (hthree.trans_lt (by decide : 3 < 4))).trans hvalues
    simp only [List.forall_mem_cons] at hlt
    constructor
    · intro _
      rw [hall, octets, shift_two _ hlt.2.1, shift_four _ hlt.2.2.1, Nat.shiftRight_eq_div_pow]
      rfl
    · intro h
      exact absurd (hread.mpr (by omega)) h
  | case4 i c₀ c₁ c₂ c₃ text b₀ b₁ hsome =>
    obtain ⟨hvalues, hlength, hlt⟩ := values_of_readGroup hsome
    have htwo : (letters [c₀, c₁, c₂, c₃]).length = 2 := hlength
    have hread := readable_append_of_lt text (readGroup_some hsome).1 (by omega) rfl
    have hall : values (c₀ :: c₁ :: c₂ :: c₃ :: text) = [b₀.toNat, b₁.toNat] :=
      (values_append_of_lt text (htwo.trans_lt (by decide : 2 < 4))).trans hvalues
    simp only [List.forall_mem_cons] at hlt
    constructor
    · intro _
      rw [hall, octets, shift_two _ hlt.2.1, Nat.shiftRight_eq_div_pow]
      rfl
    · intro h
      exact absurd (hread.mpr (by omega)) h
  | case5 i c₀ c₁ c₂ c₃ text bs hfour hthree htwo hsome =>
    have hlength : (letters [c₀, c₁, c₂, c₃]).length = bs.length := (values_of_readGroup hsome).2.1
    have hle : (letters [c₀, c₁, c₂, c₃]).length ≤ 4 := (List.takeWhile_prefix _).length_le
    have hne4 : bs.length ≠ 4 := by
      intro h
      obtain ⟨b₀, b₁, b₂, b₃, hbs⟩ := List.length_eq_four.mp h
      exact hfour b₀ b₁ b₂ b₃ hbs
    have hne3 : bs.length ≠ 3 := by
      intro h
      obtain ⟨b₀, b₁, b₂, hbs⟩ := List.length_eq_three.mp h
      exact hthree b₀ b₁ b₂ hbs
    have hne2 : bs.length ≠ 2 := by
      intro h
      obtain ⟨b₀, b₁, hbs⟩ := List.length_eq_two.mp h
      exact htwo b₀ b₁ hbs
    have hread := readable_append_of_lt text (readGroup_some hsome).1 (by omega) rfl
    refine ⟨fun h => absurd (hread.mp h) (by omega), fun _ => rfl⟩
  | case6 text i hshort =>
    have hnil : text = [] := by
      rcases text with _ | ⟨c₀, _ | ⟨c₁, _ | ⟨c₂, _ | ⟨c₃, text⟩⟩⟩⟩
      · rfl
      · simp at h4
      · simp at h4
      · simp at h4
      · exact absurd rfl (hshort c₀ c₁ c₂ c₃ text)
    subst hnil
    have hdiv : inputCount >>> 2 * 3 = i / 4 * 3 + (octets (values [])).length := by
      rw [hcount, Nat.shiftRight_eq_div_pow]
      rfl
    refine ⟨fun _ => by rw [hdiv]; rfl, fun h => absurd ⟨by simp [letters], Or.inl rfl⟩ h⟩

/-- No more is written than the groups hold. -/
theorem length_decodeLoop (inputCount i : Nat) (text : List UInt8) :
    (decodeLoop inputCount i text).2.length ≤ text.length / 4 * 3 := by
  fun_induction decodeLoop inputCount i text with
  | case1 => exact Nat.zero_le _
  | case2 i c₀ c₁ c₂ c₃ text b₀ b₁ b₂ b₃ hsome rest ih =>
    have hrest : rest.2.length ≤ text.length / 4 * 3 := ih
    simp only [List.length_cons]
    omega
  | case3 =>
    simp only [List.length_cons, List.length_nil]
    omega
  | case4 =>
    simp only [List.length_cons, List.length_nil]
    omega
  | case5 => exact Nat.zero_le _
  | case6 => exact Nat.zero_le _

/-! ## What is stripped -/

theorem skipFront_append {front : List UInt8} (text : List UInt8)
    (h : ∀ ch ∈ front, ¬ notAscii ch ∧ ascii2Bin ch = b64Ws) : skipFront (front ++ text) = skipFront text := by
  induction front with
  | nil => rfl
  | cons ch front ih =>
    obtain ⟨hch, hfront⟩ := List.forall_mem_cons.mp h
    rw [List.cons_append, skipFront, if_neg hch.1, if_pos hch.2, ih hfront]

/-- A text that starts with a letter. -/
theorem skipFront_self {text : List UInt8} (h : ∀ ch ∈ text.head?, ¬ notAscii ch ∧ ascii2Bin ch ≠ b64Ws) :
    skipFront text = some text := by
  cases text with
  | nil => rfl
  | cons ch text =>
    have hch := h ch rfl
    rw [skipFront, if_neg hch.1, if_neg hch.2]

/-- A text of at least one group, from its end. -/
theorem skipBack_append {back : List UInt8} (text : List UInt8) (h4 : back = [] ∨ 4 ≤ text.length)
    (h : ∀ ch ∈ back, ¬ notAscii ch ∧ b64NotBase64 (ascii2Bin ch)) : skipBack (back ++ text) = skipBack text := by
  induction back with
  | nil => rfl
  | cons ch back ih =>
    obtain ⟨hch, hback⟩ := List.forall_mem_cons.mp h
    have htext : 4 ≤ text.length := h4.resolve_left (List.cons_ne_nil _ _)
    have hlong : ¬ (back ++ text).length + 1 < 4 := by
      rw [List.length_append]
      omega
    rw [List.cons_append, skipBack, if_neg hlong, if_neg hch.1, if_pos hch.2, ih (Or.inr htext) hback]

theorem skipBack_self {text : List UInt8} (h : ∀ ch ∈ text.head?, ¬ notAscii ch ∧ ¬ b64NotBase64 (ascii2Bin ch)) :
    skipBack text = some text := by
  cases text with
  | nil => rfl
  | cons ch text =>
    have hch := h ch rfl
    rw [skipBack, if_neg hch.1, if_neg hch.2, ite_self]

/-- What may stand in front of a text. -/
def frontBlanks : List UInt8 := [9, 32]

/-- What may stand behind a text. -/
def backBlanks : List UInt8 := [9, 10, 13, 32, 45]

theorem frontBlanks_all : ∀ ch ∈ frontBlanks, ¬ notAscii ch ∧ ascii2Bin ch = b64Ws := by decide +kernel

theorem backBlanks_all : ∀ ch ∈ backBlanks, ¬ notAscii ch ∧ b64NotBase64 (ascii2Bin ch) := by decide +kernel

theorem strip_append {front text back : List UInt8} (hfront : ∀ ch ∈ front, ch ∈ frontBlanks)
    (hback : ∀ ch ∈ back, ch ∈ backBlanks) (h4 : back = [] ∨ 4 ≤ text.length)
    (hhead : ∀ ch ∈ text.head?, ¬ notAscii ch ∧ ascii2Bin ch ≠ b64Ws)
    (hlast : ∀ ch ∈ text.getLast?, ¬ notAscii ch ∧ ¬ b64NotBase64 (ascii2Bin ch)) :
    strip (front ++ (text ++ back)) = some text := by
  have hhead' : ∀ ch ∈ (text ++ back).head?, ¬ notAscii ch ∧ ascii2Bin ch ≠ b64Ws := by
    rcases h4 with rfl | h4
    · rwa [List.append_nil]
    · rw [List.head?_append_of_ne_nil _ (by rintro rfl; simp at h4)]
      exact hhead
  have hskip : skipBack (text ++ back).reverse = some text.reverse := by
    rw [List.reverse_append, skipBack_append _ (by simpa using h4) (fun ch hch => ?_), skipBack_self]
    · rwa [List.head?_reverse]
    · exact backBlanks_all ch (hback ch (List.mem_reverse.mp hch))
  rw [strip, skipFront_append _ fun ch hch => frontBlanks_all ch (hfront ch hch), skipFront_self hhead',
    Option.bind_some, hskip, Option.map_some, List.reverse_reverse]

/-- What is behind the blanks in front. -/
theorem skipFront_suffix {text t : List UInt8} (h : skipFront text = some t) : t <:+ text := by
  induction text with
  | nil =>
    obtain rfl := Option.some.inj h
    exact List.suffix_rfl
  | cons ch text ih =>
    rw [skipFront] at h
    split_ifs at h
    · exact (ih h).trans (List.suffix_cons ch text)
    · obtain rfl := Option.some.inj h
      exact List.suffix_rfl

theorem skipBack_suffix {text t : List UInt8} (h : skipBack text = some t) : t <:+ text := by
  induction text with
  | nil =>
    obtain rfl := Option.some.inj h
    exact List.suffix_rfl
  | cons ch text ih =>
    rw [skipBack] at h
    split_ifs at h
    · obtain rfl := Option.some.inj h
      exact List.suffix_rfl
    · exact (ih h).trans (List.suffix_cons ch text)
    · obtain rfl := Option.some.inj h
      exact List.suffix_rfl

theorem length_strip_le {text t : List UInt8} (h : strip text = some t) : t.length ≤ text.length := by
  obtain ⟨t', hfront, hreverse⟩ := Option.bind_eq_some_iff.mp h
  obtain ⟨t'', hback, rfl⟩ := Option.map_eq_some_iff.mp hreverse
  have hle := (skipBack_suffix hback).length_le
  rw [List.length_reverse] at hle
  rw [List.length_reverse]
  exact hle.trans (skipFront_suffix hfront).length_le

/-- From a text of nothing but what may stand behind, up to three characters are left. -/
theorem skipBack_all (text : List UInt8) (h : ∀ ch ∈ text, ¬ notAscii ch ∧ b64NotBase64 (ascii2Bin ch)) :
    ∃ t, skipBack text = some t ∧ t.length = min text.length 3 := by
  induction text with
  | nil => exact ⟨[], rfl, rfl⟩
  | cons ch text ih =>
    obtain ⟨hch, htext⟩ := List.forall_mem_cons.mp h
    rw [skipBack]
    by_cases hlong : text.length + 1 < 4
    · rw [if_pos hlong]
      exact ⟨_, rfl, by rw [List.length_cons]; omega⟩
    · obtain ⟨t, ht, hlength⟩ := ih htext
      rw [if_neg hlong, if_neg hch.1, if_pos hch.2]
      exact ⟨t, ht, by rw [hlength, List.length_cons]; omega⟩

theorem skipFront_dropWhile {text : List UInt8} (h : ∀ ch ∈ text, ¬ notAscii ch) :
    skipFront text = some (text.dropWhile (ascii2Bin · = b64Ws)) := by
  induction text with
  | nil => rfl
  | cons ch text ih =>
    obtain ⟨hch, htext⟩ := List.forall_mem_cons.mp h
    rw [skipFront, if_neg hch, List.dropWhile_cons, ih htext]
    simp only [decide_eq_true_eq]
    split <;> rfl

theorem blanks_all : ∀ ch ∈ backBlanks, ascii2Bin ch = b64Ws ↔ ch ∈ frontBlanks := by decide +kernel

/-- Where there is nothing but blanks, all is stripped, or what is left is no group. -/
theorem strip_blanks {front back : List UInt8} (hfront : ∀ ch ∈ front, ch ∈ frontBlanks)
    (hback : ∀ ch ∈ back, ch ∈ backBlanks) :
    ∃ t, strip (front ++ back) = some t ∧ t.length ≤ 3 ∧ (t = [] ↔ ∀ ch ∈ back, ch ∈ frontBlanks) := by
  have hrest : ∀ ch ∈ back.dropWhile (ascii2Bin · = b64Ws), ch ∈ backBlanks :=
    fun ch hch => hback ch ((List.dropWhile_suffix _).subset hch)
  obtain ⟨t, ht, hlength⟩ := skipBack_all (back.dropWhile (ascii2Bin · = b64Ws)).reverse
    fun ch hch => backBlanks_all ch (hrest ch (List.mem_reverse.mp hch))
  rw [List.length_reverse] at hlength
  refine ⟨t.reverse, ?_, by rw [List.length_reverse, hlength]; omega, ?_⟩
  · rw [strip, skipFront_append _ fun ch hch => frontBlanks_all ch (hfront ch hch),
      skipFront_dropWhile fun ch hch => (backBlanks_all ch (hback ch hch)).1, Option.bind_some, ht, Option.map_some]
  · rw [List.reverse_eq_nil_iff, ← List.length_eq_zero_iff, hlength]
    have hzero : min (back.dropWhile (ascii2Bin · = b64Ws)).length 3 = 0 ↔
        back.dropWhile (ascii2Bin · = b64Ws) = [] := by
      rw [← List.length_eq_zero_iff]
      omega
    rw [hzero, List.dropWhile_eq_nil_iff]
    refine forall₂_congr fun ch hch => ?_
    rw [decide_eq_true_eq, blanks_all ch (hback ch hch)]

/-! ## What a call does -/

/-- A call that has groups of four to read. -/
theorem base64Decode_text {input : Input} (h : 0 ≤ input.count) {text : List UInt8}
    (hstrip : strip input.text = some text) (h4 : text.length % 4 = 0) :
    (Readable text →
        base64Decode (some input) true = (Int32.ofNat (octets (values text)).length, octets (values text))) ∧
      (¬ Readable text → (base64Decode (some input) true).1 = -2) := by
  have hloop := decodeLoop_eq _ 0 text (Nat.zero_add _).symm rfl h4
  have hfour : ¬ text.length % 4 ≠ 0 := by omega
  simp only [base64Decode, if_neg (Input.not_neg h), hstrip, if_neg hfour, if_true]
  constructor
  · intro hread
    rw [hloop.1 hread, Nat.zero_div, Nat.zero_mul, Nat.zero_add, Int32.ofInt_eq_ofNat]
  · intro hread
    rw [hloop.2 hread]
    rfl

/-- A call that has no groups of four to read. -/
theorem base64Decode_error {input : Input} (h : 0 ≤ input.count) (outputBuffer : Bool)
    (hstrip : ∀ text ∈ strip input.text, text.length % 4 ≠ 0) : base64Decode (some input) outputBuffer = (-2, []) := by
  simp only [base64Decode, if_neg (Input.not_neg h)]
  cases htext : strip input.text with
  | none => rfl
  | some text => exact if_pos (hstrip text htext)

/-! ## Round trip -/

theorem letters_encodeLoop (bytes : List UInt8) : letters (encodeLoop bytes) = (sextets bytes).map bin2Ascii := by
  have hletter : ∀ ch ∈ (sextets bytes).map bin2Ascii, ch ≠ pad := by
    intro ch hch
    obtain ⟨s, hs, rfl⟩ := List.mem_map.mp hch
    exact (letter_all s (sextets_lt bytes s hs)).1.2.1
  have hpad : letters (padding bytes.length) = [] := by
    rw [letters, padding, List.takeWhile_replicate]
    rfl
  rw [encodeLoop_eq, letters, List.takeWhile_append_of_pos (by simpa using hletter)]
  show _ ++ letters (padding bytes.length) = _
  rw [hpad, List.append_nil]

theorem values_encodeLoop (bytes : List UInt8) : values (encodeLoop bytes) = sextets bytes := by
  rw [values, letters_encodeLoop, List.map_map]
  conv_rhs => rw [← List.map_id (sextets bytes)]
  refine List.map_congr_left fun s hs => ?_
  exact (letter_all s (sextets_lt bytes s hs)).2.1

theorem readable_encodeLoop (bytes : List UInt8) : Readable (encodeLoop bytes) := by
  constructor
  · intro ch hch
    rw [letters_encodeLoop] at hch
    obtain ⟨s, hs, rfl⟩ := List.mem_map.mp hch
    exact (letter_all s (sextets_lt bytes s hs)).1
  · have hmod : bytes.length % 3 = 0 ∨ bytes.length % 3 = 1 ∨ bytes.length % 3 = 2 := by omega
    rw [letters_encodeLoop, List.length_map, length_sextets, length_encodeLoop]
    rcases hmod with hr | hr | hr <;> omega

/-- None of the characters written is one that is stripped. -/
theorem plain_of_mem_encodeLoop {bytes : List UInt8} {ch : UInt8} (h : ch ∈ encodeLoop bytes) :
    ¬ notAscii ch ∧ ascii2Bin ch ≠ b64Ws ∧ ¬ b64NotBase64 (ascii2Bin ch) := by
  rw [encodeLoop_eq, List.mem_append] at h
  rcases h with h | h
  · obtain ⟨s, hs, rfl⟩ := List.mem_map.mp h
    obtain ⟨hletter, -, hbase, hws⟩ := letter_all s (sextets_lt bytes s hs)
    refine ⟨?_, hws, hbase⟩
    simpa [notAscii] using hletter.1
  · obtain rfl := List.eq_of_mem_replicate h
    decide


/-- **Every text of bytes is read back**: what is written for it, with blanks in front and blanks, line ends and
hyphens behind, whatever stands in memory behind these.  Behind no bytes there may only be blanks. -/
theorem base64Decode_base64Encode (source : Input) (hsource : 0 ≤ source.count) (hfit : source.count ≤ 1610612733) :
    ∃ text : List UInt8, base64Encode (some source) true = (Int32.ofNat text.length, text ++ [terminator]) ∧
      text.length = (source.text.length + 2) / 3 * 4 ∧
      ∀ front back : List UInt8, (∀ ch ∈ front, ch ∈ frontBlanks) → (∀ ch ∈ back, ch ∈ backBlanks) →
        ∀ target : Input, 0 ≤ target.count → target.text = front ++ (text ++ back) →
          (base64Decode (some target) true = (source.count, source.text) ↔
            (source.count = 0 → ∀ ch ∈ back, ch ∈ frontBlanks)) := by
  have hlength := length_encodeLoop source.text
  have hcount := Input.ofNat_length hsource
  have hzero : source.count = 0 ↔ source.text = [] := by
    rw [← List.length_eq_zero_iff, ← hcount, ← Int32.toInt_inj,
      Int32.toInt_ofNat_of_lt (Input.length_text_lt hsource)]
    exact Int.natCast_eq_zero
  refine ⟨encodeLoop source.text, ?_, hlength, fun front back hfront hback target htarget htext => ?_⟩
  · have hle : source.text.length ≤ 1610612733 := by
      have htoInt := Input.length_text hsource
      have hle : source.count.toInt ≤ 1610612733 := Int32.le_iff_toInt_le.mp hfit
      omega
    rw [base64Encode, if_neg (Input.not_neg hsource), if_pos rfl, hlength, ← characters_eq hle, hcount]
  by_cases hempty : source.text = []
  · have hblanks : target.text = front ++ back := by rw [htext, hempty]; rfl
    obtain ⟨t, ht, hthree, hnil⟩ := strip_blanks hfront hback
    rw [← hblanks] at ht
    rw [hzero, hempty, hzero.mpr hempty, ← hnil]
    by_cases htnil : t = []
    · subst htnil
      rw [(base64Decode_text htarget ht rfl).1 ⟨nofun, .inl rfl⟩]
      exact iff_of_true rfl fun _ => rfl
    · have herror : base64Decode (some target) true = (-2, []) := by
        apply base64Decode_error htarget
        rw [ht]
        rintro _ ⟨⟩
        have := List.length_pos_iff.mpr htnil
        omega
      rw [herror]
      refine iff_of_false (fun h => ?_) fun h => htnil (h rfl)
      exact absurd (congrArg Prod.fst h) (by decide)
  · have h4 : 4 ≤ (encodeLoop source.text).length := by
      have := List.length_pos_iff.mpr hempty
      omega
    have hstrip := strip_append hfront hback (Or.inr h4)
      (fun ch hch => (plain_of_mem_encodeLoop (List.mem_of_head? hch)).imp_right And.left)
      (fun ch hch => (plain_of_mem_encodeLoop (List.mem_of_getLast? hch)).imp_right And.right)
    rw [← htext] at hstrip
    have hread := (base64Decode_text htarget hstrip (by omega)).1 (readable_encodeLoop source.text)
    rw [hread, values_encodeLoop, octets_sextets, hcount]
    exact iff_of_true rfl fun h => absurd (hzero.mp h) hempty

/-- ` TWE=` in a line. -/
def lineInput : Input := ⟨[32, 84, 87, 69, 61, 13, 10, 0], 7, by decide⟩

theorem base64Decode_base64Encode_line : base64Decode (some lineInput) true = (2, [77, 97]) := by
  obtain ⟨text, hwrite, -, hread⟩ := base64Decode_base64Encode ⟨[77, 97], 2, by decide⟩ (by decide) (by decide)
  have htext : text = [84, 87, 69, 61] := by
    have hwritten : base64Encode (some ⟨[77, 97], 2, by decide⟩) true = (4, [84, 87, 69, 61] ++ [terminator]) := by
      decide +kernel
    exact List.append_cancel_right (congrArg Prod.snd (hwrite.symm.trans hwritten))
  refine (hread [32] [13, 10] (by decide +kernel) (by decide +kernel) lineInput (by decide) ?_).mpr fun h =>
    absurd h (by decide)
  rw [htext]
  decide

/-! ## What is accepted -/

/-- The letters of the bytes that are read in full are those that would be written for them. -/
theorem take_encodeLoop_octets {text : List UInt8} (h : Readable text) :
    (encodeLoop (octets (values text))).take ((octets (values text)).length * 4 / 3) =
      text.take ((octets (values text)).length * 4 / 3) := by
  have hlt : ∀ s ∈ values text, s < 64 := by
    intro s hs
    obtain ⟨ch, hch, rfl⟩ := List.mem_map.mp hs
    exact (h.letter ch hch).value.1
  have hback : (values text).map bin2Ascii = letters text := by
    rw [values, List.map_map]
    conv_rhs => rw [← List.map_id (letters text)]
    exact List.map_congr_left fun ch hch => (h.letter ch hch).value.2
  have hvalues : (values text).length = (letters text).length := List.length_map _
  have hcount := length_octets (values text)
  generalize hk : (octets (values text)).length * 4 / 3 = k
  have hsextets := sextets_octets (values text) hlt
  rw [hk] at hsextets
  have hle : k ≤ ((sextets (octets (values text))).map bin2Ascii).length := by
    rw [List.length_map, length_sextets]
    omega
  obtain ⟨rest, hrest⟩ : letters text <+: text := List.takeWhile_prefix _
  calc (encodeLoop (octets (values text))).take k
      = ((sextets (octets (values text))).map bin2Ascii).take k := by
        rw [encodeLoop_eq, List.take_append_of_le_length hle]
    _ = ((values text).map bin2Ascii).take k := by rw [← List.map_take, hsextets, List.map_take]
    _ = (letters text).take k := by rw [hback]
    _ = text.take k := by
        conv_rhs => rw [← hrest]
        rw [List.take_append_of_le_length (by omega)]

/-- **What is accepted.**  A call succeeds exactly if what it does not strip is made of groups of four and readable.
Then it returns the number of bytes it wrote, and the letters that these bytes have in full are those of the text; the
bits of a last letter that make no byte are lost.  In any case no more is written than the size a call without a buffer
returns. -/
theorem base64Decode_iff (input : Input) (h : 0 ≤ input.count) :
    (0 ≤ (base64Decode (some input) true).1 ↔ ∃ text ∈ strip input.text, text.length % 4 = 0 ∧ Readable text) ∧
      (∀ text ∈ strip input.text, 0 ≤ (base64Decode (some input) true).1 →
        (base64Decode (some input) true).1.toInt = (base64Decode (some input) true).2.length ∧
        (encodeLoop (base64Decode (some input) true).2).take ((base64Decode (some input) true).2.length * 4 / 3) =
          text.take ((base64Decode (some input) true).2.length * 4 / 3)) ∧
      ((base64Decode (some input) true).2.length : Int) ≤ max 0 (base64Decode (some input) false).1.toInt := by
  by_cases hgroups : ∃ text ∈ strip input.text, text.length % 4 = 0
  · obtain ⟨text, hstrip, h4⟩ := hgroups
    have hlt : text.length < 2 ^ 31 := Nat.lt_of_le_of_lt (length_strip_le hstrip) (Input.length_text_lt h)
    have hoctets : (octets (values text)).length ≤ text.length := by
      have hprefix : (letters text).length ≤ text.length := (List.takeWhile_prefix _).length_le
      rw [length_octets, values, List.length_map]
      omega
    obtain ⟨hread, hnot⟩ := base64Decode_text h hstrip h4
    have hone : ∀ t ∈ strip input.text, t = text := fun t ht => Option.mem_unique ht hstrip
    refine ⟨⟨fun hpos => ⟨text, hstrip, h4, ?_⟩, ?_⟩, fun t ht hpos => ?_, ?_⟩
    · by_contra hread
      rw [hnot hread] at hpos
      exact absurd hpos (by decide)
    · rintro ⟨t, ht, -, htread⟩
      obtain rfl := hone t ht
      rw [hread htread]
      exact ofNat_nonneg (by omega)
    · obtain rfl := hone t ht
      have htread : Readable t := by
        by_contra htread
        rw [hnot htread] at hpos
        exact absurd hpos (by decide)
      rw [hread htread]
      exact ⟨Int32.toInt_ofNat_of_lt (by omega), take_encodeLoop_octets htread⟩
    · have hlength := length_decodeLoop text.length 0 text
      have hfour : ¬ text.length % 4 ≠ 0 := by omega
      have hshift : text.length >>> 2 = text.length / 4 := Nat.shiftRight_eq_div_pow _ _
      have hstrip' : strip input.text = some text := hstrip
      simp only [base64Decode, if_neg (Input.not_neg h), hstrip', if_neg hfour, if_true, Bool.false_eq_true, if_false,
        hshift]
      rw [Int32.toInt_ofNat_of_lt (by omega)]
      omega
  · have herror (outputBuffer : Bool) : base64Decode (some input) outputBuffer = (-2, []) :=
      base64Decode_error h outputBuffer fun text htext h4 => hgroups ⟨text, htext, h4⟩
    rw [herror true, herror false]
    refine ⟨iff_of_false (by decide) fun ⟨text, htext, h4, _⟩ => hgroups ⟨text, htext, h4⟩, fun _ _ hpos => ?_,
      by decide⟩
    exact absurd hpos (by decide)

/-- `QR==`, of which `QQ==` would be written for the one byte read. -/
def lostBits : Input := ⟨[81, 82, 61, 61], 4, by decide⟩

theorem base64Decode_iff_lostBits : 0 ≤ (base64Decode (some lostBits) true).1 ∧
    (encodeLoop (base64Decode (some lostBits) true).2).take 1 = lostBits.text.take 1 ∧
    encodeLoop (base64Decode (some lostBits) true).2 ≠ lostBits.text := by
  obtain ⟨hiff, hletters, -⟩ := base64Decode_iff lostBits (by decide)
  have hpos := hiff.mpr ⟨lostBits.text, by decide +kernel, by decide, ⟨by decide +kernel, by decide⟩⟩
  have hbytes : (base64Decode (some lostBits) true).2.length * 4 / 3 = 1 := by decide +kernel
  have htake := (hletters lostBits.text (by decide +kernel) hpos).2
  rw [hbytes] at htake
  exact ⟨hpos, htake, by decide +kernel⟩

end WingPhp.Base64
