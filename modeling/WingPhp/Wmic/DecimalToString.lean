import WingPhp.Lib.Decimal
import WingPhp.Lib.Memory

/-!
# `DecimalToString`

A `DECIMAL` is a magnitude of 96 bits, a scale and a sign.  `DecimalToString` of
`helper/WingWmic.class.c` divides the low 64 bits by a power of ten, which it computes in 64 bits, and
writes the quotient, a point and the remainder.  It never leaves its buffers
(`decimalToString_written`); `decimalToString_right_iff` says which values it writes.
-/

namespace WingPhp.Wmic

open Memory Decimal

/-- `decVal`. -/
structure DecVal where
  scale : BitVec 8
  sign : BitVec 8
  hi32 : BitVec 32
  lo64 : BitVec 64
  deriving DecidableEq, Repr

/-- The scale and the sign, read as one number of 16 bits. -/
def DecVal.signscale (d : DecVal) : Nat := d.scale.toNat + 256 * d.sign.toNat

/-- The loop that divides; `iMod` is 64 bits wide. -/
def divideLoop : Nat → Nat → Nat → Nat × Nat
  | 0, ui, iMod => (ui, iMod)
  | n + 1, ui, iMod => divideLoop n (ui / 10) (iMod * 10 % 0x10000000000000000)

/-- `_ui64toa( n, buf, 10 )`. -/
def ui64toa (n : Nat) (buf : List UInt8) : Except Fault (List UInt8) :=
  store buf 0 ((intNumeral n).text ++ [0])

/-- `sprintf( sz2, "0%s", sz1 )` and `memcpy( sz1, sz2, 64 )`, `n` times. -/
def padLoop : Nat → List UInt8 → List UInt8 → Except Fault (List UInt8)
  | 0, sz1, _ => .ok sz1
  | n + 1, sz1, sz2 => do
    let t ← loadText (some sz1)
    let sz2 ← store sz2 0 (48 :: t ++ [0])
    let sz1 ← memcpy sz1 0 (some sz2) 64
    padLoop n sz1 sz2

/-- What is left in `buf`. -/
def decimalToString (d : DecVal) : Except Fault (List UInt8) := do
  let ui := (divideLoop (min d.signscale d.scale.toNat) d.lo64.toNat 1).1
  let iMod := (divideLoop (min d.signscale d.scale.toNat) d.lo64.toNat 1).2
  let ud := d.lo64.toNat % iMod
  let sz0 ← ui64toa ui (malloc 64)
  let sz1 ← ui64toa ud (malloc 64)
  let len := (← loadText (some sz1)).length
  -- the difference is unsigned, and becomes an `int`
  let zeroSize := (BitVec.ofInt 32 ((d.scale.toNat : Int) - len)).toInt
  let sz1 ← padLoop zeroSize.toNat sz1 (malloc 64)
  let t0 ← loadText (some sz0)
  let t1 ← loadText (some sz1)
  if d.sign.toNat < 128 then
    if 0 < d.signscale then store (malloc 128) 0 (t0 ++ [46] ++ t1 ++ [0])
    else store (malloc 128) 0 (t0 ++ [0])
  else if 0 < d.signscale then store (malloc 128) 0 ([45] ++ t0 ++ [46] ++ t1 ++ [0])
  else store (malloc 128) 0 ([45] ++ t0 ++ [0])

/-! ## What it should write -/

def DecVal.value (d : DecVal) : ℚ :=
  (if d.sign = 0 then 1 else -1) *
    ((d.hi32.toNat * 0x10000000000000000 + d.lo64.toNat : ℕ) : ℚ) / 10 ^ d.scale.toNat

/-- The value, with as many digits behind a point as the scale says, and no point for none. -/
structure Denotes (n : Numeral) (d : DecVal) : Prop where
  digit : n.HasDigit
  value : n.value = d.value
  places : n.frac.map List.length = if d.scale = 0 then none else some d.scale.toNat

/-- The buffer holds such a numeral. -/
def DecimalRight (d : DecVal) (r : Except Fault (List UInt8)) : Prop :=
  ∃ buf n, r = .ok buf ∧ loadText (some buf) = .ok (Numeral.text n) ∧ Denotes n d

/-! ## The loops -/

theorem divideLoop_eq (n ui : Nat) {iMod : Nat} (h : iMod < 0x10000000000000000) :
    divideLoop n ui iMod = (ui / 10 ^ n, iMod * 10 ^ n % 0x10000000000000000) := by
  induction n generalizing ui iMod with
  | zero => rw [divideLoop, Nat.pow_zero, Nat.div_one, Nat.mul_one, Nat.mod_eq_of_lt h]
  | succ n ih =>
    rw [divideLoop, ih _ (Nat.mod_lt _ (by decide)), Nat.div_div_eq_div_mul, Nat.mod_mul_mod, Nat.mul_assoc,
      ← Nat.pow_succ']

/-- A text written to the front of a block. -/
theorem store_text {mem t : List UInt8} (ht : 0 ∉ t) (h : t.length < mem.length) :
    ∃ mem', store mem 0 (t ++ [0]) = .ok mem' ∧ mem'.length = mem.length ∧ loadText (some mem') = .ok t := by
  have hok := @store_ok _ mem (t ++ [0]) 0 (by rw [List.length_append, List.length_singleton]; omega)
  refine ⟨_, hok, length_store hok, ?_⟩
  rw [List.take_zero, List.nil_append, List.append_assoc]
  exact loadText_terminated ht _

theorem memcpy_whole {mem data : List UInt8} {n : Nat} (hmem : mem.length = n) (hdata : data.length = n) :
    memcpy mem 0 (some data) n = .ok data := by
  have hall := @memcpy_append _ mem 0 data [] (by omega)
  rw [List.append_nil, hdata] at hall
  rw [hall, List.take_zero, List.nil_append, List.drop_of_length_le (by omega), List.append_nil]

theorem padLoop_eq {n : Nat} {ds : List (Fin 10)} (hroom : n + ds.length < 64) {sz1 sz2 : List UInt8}
    (hlen1 : sz1.length = 64) (hlen2 : sz2.length = 64) (hsz1 : loadText (some sz1) = .ok (digitText ds)) :
    ∃ sz1', padLoop n sz1 sz2 = .ok sz1' ∧
      loadText (some sz1') = .ok (digitText (List.replicate n 0 ++ ds)) := by
  induction n generalizing ds sz1 sz2 with
  | zero => exact ⟨sz1, rfl, hsz1⟩
  | succ n ih =>
    have hzero : (48 :: digitText ds : List UInt8) = digitText (0 :: ds) := rfl
    obtain ⟨sz2', hstore, hlen2', hsz2'⟩ := @store_text sz2 (digitText (0 :: ds)) (zero_not_mem_digitText _)
      (by rw [length_digitText, List.length_cons]; omega)
    rw [hlen2] at hlen2'
    have hfit : n + (0 :: ds).length < 64 := by
      rw [List.length_cons]
      omega
    obtain ⟨sz1', hpad, hsz1'⟩ := ih hfit hlen2' hlen2' hsz2'
    refine ⟨sz1', ?_, ?_⟩
    · rw [padLoop, hsz1, ok_bind, hzero, hstore, ok_bind, memcpy_whole hlen1 hlen2', ok_bind]
      exact hpad
    · rw [List.replicate_succ', List.append_assoc]
      exact hsz1'

/-! ## What it writes -/

/-- The power of ten as it comes out of the loop. -/
def DecVal.iMod (d : DecVal) : Nat := 10 ^ d.scale.toNat % 0x10000000000000000

/-- The numeral written. -/
def DecVal.written (d : DecVal) : Numeral where
  neg := decide (128 ≤ d.sign.toNat)
  whole := natDigits (d.lo64.toNat / 10 ^ d.scale.toNat)
  frac :=
    if 0 < d.signscale then
      some (List.replicate (d.scale.toNat - (natDigits (d.lo64.toNat % d.iMod)).length) 0 ++
        natDigits (d.lo64.toNat % d.iMod))
    else none

theorem hasDigit_written (d : DecVal) : d.written.HasDigit := by
  intro h
  exact natDigits_ne_nil _ (List.append_eq_nil_iff.mp h).1

theorem text_natCast (n : Nat) : (intNumeral n).text = digitText (natDigits n) := by
  rw [Numeral.text_eq, intNumeral, decide_eq_false (by omega), Int.natAbs_natCast]
  exact List.append_nil _

/-- What 64 bits hold has at most twenty digits. -/
theorem length_natDigits_lo64 {lo64 : BitVec 64} {n : Nat} (h : n ≤ lo64.toNat) : (natDigits n).length ≤ 20 := by
  have hlt := lo64.isLt
  exact length_natDigits_le (by decide) (by omega)

theorem length_text_written {d : DecVal} (hscale : d.scale.toNat ≤ 28) : d.written.text.length < 128 := by
  have hui := length_natDigits_lo64 (Nat.div_le_self d.lo64.toNat (10 ^ d.scale.toNat))
  have hud := length_natDigits_lo64 (Nat.mod_le d.lo64.toNat d.iMod)
  rw [Numeral.text_eq]
  unfold DecVal.written
  by_cases hss : 0 < d.signscale
  · cases decide (128 ≤ d.sign.toNat) <;> simp [hss] <;> omega
  · cases decide (128 ≤ d.sign.toNat) <;> simp [hss] <;> omega

/-- **No buffer is left**, and the text is that numeral. -/
theorem decimalToString_written {d : DecVal} (hscale : d.scale.toNat ≤ 28) :
    ∃ buf, decimalToString d = .ok buf ∧ loadText (some buf) = .ok d.written.text := by
  have hmin : min d.signscale d.scale.toNat = d.scale.toNat := Nat.min_eq_right (Nat.le_add_right _ _)
  have hui := length_natDigits_lo64 (Nat.div_le_self d.lo64.toNat (10 ^ d.scale.toNat))
  have hud := length_natDigits_lo64 (Nat.mod_le d.lo64.toNat d.iMod)
  obtain ⟨sz0, hsz0, -, ht0⟩ := @store_text (malloc 64) (digitText (natDigits (d.lo64.toNat / 10 ^ d.scale.toNat)))
    (zero_not_mem_digitText _) (by rw [length_digitText, length_malloc]; omega)
  obtain ⟨sz1, hsz1, hlen1, ht1⟩ := @store_text (malloc 64) (digitText (natDigits (d.lo64.toNat % d.iMod)))
    (zero_not_mem_digitText _) (by rw [length_digitText, length_malloc]; omega)
  rw [length_malloc] at hlen1
  have hzero : (BitVec.ofInt 32 ((d.scale.toNat : Int) - (natDigits (d.lo64.toNat % d.iMod)).length)).toInt.toNat =
      d.scale.toNat - (natDigits (d.lo64.toNat % d.iMod)).length := by
    rw [BitVec.toInt_ofInt, Int.bmod_eq_of_le (by omega) (by omega)]
    omega
  obtain ⟨sz1', hpad, ht1'⟩ := @padLoop_eq (d.scale.toNat - (natDigits (d.lo64.toNat % d.iMod)).length) _
    (by omega) sz1 (malloc 64) hlen1 (length_malloc 64) ht1
  have hwritten := Numeral.text_eq d.written
  obtain ⟨buf, hbuf, -, htext⟩ := @store_text (malloc 128) _ d.written.zero_not_mem_text
    (by rw [length_malloc]; exact length_text_written hscale)
  refine ⟨buf, ?_, htext⟩
  rw [hwritten, DecVal.written] at hbuf
  unfold decimalToString ui64toa
  simp only [hmin, divideLoop_eq _ _ (show 1 < 0x10000000000000000 by decide), Nat.one_mul, text_natCast]
  rw [hsz0, ok_bind]
  show (store (malloc 64) 0 (digitText (natDigits (d.lo64.toNat % d.iMod)) ++ [0]) >>= _) = _
  rw [hsz1, ok_bind, ht1, ok_bind, length_digitText, hzero, hpad, ok_bind, ht0, ok_bind, ht1', ok_bind, ← hbuf]
  by_cases hsign : d.sign.toNat < 128
  · rw [if_pos hsign, decide_eq_false (Nat.not_le_of_lt hsign)]
    by_cases hss : 0 < d.signscale
    · simp [hss]
    · simp [hss]
  · rw [if_neg hsign, decide_eq_true (Nat.le_of_not_lt hsign)]
    by_cases hss : 0 < d.signscale
    · simp [hss]
    · simp [hss]

/-! ## Which values that is -/

/-- The quotient and the remainder make the low 64 bits up again when the power of ten is not cut, or the
remainder does not notice. -/
theorem quotient_remainder_iff {lo hi k : Nat} (hlo : lo < 0x10000000000000000) (hk : k ≤ 28) :
    lo / 10 ^ k * 10 ^ k + lo % (10 ^ k % 0x10000000000000000) = hi * 0x10000000000000000 + lo ↔
      hi = 0 ∧ (k ≤ 19 ∨ lo < 10 ^ k % 0x10000000000000000) := by
  by_cases hsmall : k ≤ 19
  · have hpow : 10 ^ k ≤ 10 ^ 19 := Nat.pow_le_pow_right (by decide) hsmall
    rw [Nat.mod_eq_of_lt (show 10 ^ k < 0x10000000000000000 by omega), Nat.div_add_mod']
    omega
  · have hpow : 10 ^ 20 ≤ 10 ^ k := Nat.pow_le_pow_right (by decide) (by omega)
    have hnonzero : 0 < 10 ^ k % 0x10000000000000000 := by
      clear hpow
      interval_cases k <;> omega
    rw [Nat.div_eq_of_lt (by omega), Nat.zero_mul, Nat.zero_add]
    constructor
    · intro heq
      have hle := Nat.mod_le lo (10 ^ k % 0x10000000000000000)
      have hlt := Nat.mod_lt lo hnonzero
      omega
    · rintro ⟨rfl, h | h⟩
      · exact absurd h hsmall
      · rw [Nat.mod_eq_of_lt h]
        omega

theorem iMod_pos {d : DecVal} (hscale : d.scale.toNat ≤ 28) : 0 < d.iMod := by
  unfold DecVal.iMod
  generalize d.scale.toNat = k at hscale
  interval_cases k <;> omega

/-- The places written are those of the scale; a negative number without any is given one. -/
theorem places_written {d : DecVal} (hscale : d.scale.toNat ≤ 28) (hsign : d.sign = 0 ∨ d.sign = 0x80) :
    d.written.frac.map List.length = (if d.scale = 0 then none else some d.scale.toNat) ↔
      d.sign = 0 ∨ d.scale ≠ 0 := by
  by_cases hzero : d.scale = 0
  · have hss : 0 < d.signscale ↔ d.sign ≠ 0 := by
      unfold DecVal.signscale
      rcases hsign with h | h
      · simp [h, hzero]
      · simp [h]
    rw [if_pos hzero, Option.map_eq_none_iff, DecVal.written, ite_eq_right_iff, hss]
    simp [hzero]
  · have hpos : 0 < d.scale.toNat := Nat.pos_of_ne_zero fun h => hzero (BitVec.eq_of_toNat_eq h)
    have hss : 0 < d.signscale := Nat.lt_of_lt_of_le hpos (Nat.le_add_right _ _)
    have hlen : (natDigits (d.lo64.toNat % d.iMod)).length ≤ d.scale.toNat := by
      refine length_natDigits_le hpos ?_
      exact Nat.lt_of_lt_of_le (Nat.mod_lt _ (iMod_pos hscale)) (Nat.mod_le _ _)
    rw [if_neg hzero, DecVal.written, if_pos hss, Option.map_some, List.length_append, List.length_replicate,
      Nat.sub_add_cancel hlen]
    exact iff_of_true rfl (.inr hzero)

/-- The value written, when the places are right. -/
theorem value_written {d : DecVal} (hsign : d.sign = 0 ∨ d.sign = 0x80)
    (hplaces : d.written.frac.map List.length = if d.scale = 0 then none else some d.scale.toNat) :
    d.written.value = (if d.sign = 0 then 1 else -1) *
      ((d.lo64.toNat / 10 ^ d.scale.toNat * 10 ^ d.scale.toNat + d.lo64.toNat % d.iMod : ℕ) : ℚ) /
        10 ^ d.scale.toNat := by
  have hfrac : (natValue d.written.fracDigits : ℚ) / 10 ^ d.written.fracDigits.length =
      (d.lo64.toNat % d.iMod : ℕ) / 10 ^ d.scale.toNat := by
    by_cases hzero : d.scale = 0
    · rw [if_pos hzero, Option.map_eq_none_iff] at hplaces
      have hmod : d.lo64.toNat % d.iMod = 0 := by
        rw [DecVal.iMod, hzero]
        exact Nat.mod_one _
      rw [Numeral.fracDigits, hplaces, hmod]
      simp [natValue]
    · rw [if_neg hzero] at hplaces
      obtain ⟨f, hf, hlen⟩ := Option.map_eq_some_iff.mp hplaces
      have hpos : 0 < d.scale.toNat := Nat.pos_of_ne_zero fun h => hzero (BitVec.eq_of_toNat_eq h)
      have hvalue : natValue f = d.lo64.toNat % d.iMod := by
        rw [DecVal.written, if_pos (show 0 < d.signscale from Nat.lt_of_lt_of_le hpos (Nat.le_add_right _ _)),
          Option.some.injEq] at hf
        rw [← hf, natValue_zeros, natValue_natDigits]
      rw [Numeral.fracDigits, hf, Option.getD_some, hvalue, hlen]
  have habs : d.written.absValue =
      ((d.lo64.toNat / 10 ^ d.scale.toNat * 10 ^ d.scale.toNat + d.lo64.toNat % d.iMod : ℕ) : ℚ) /
        10 ^ d.scale.toNat := by
    have hpow : (10 : ℚ) ^ d.scale.toNat ≠ 0 := pow_ne_zero _ (by norm_num)
    rw [Numeral.absValue, hfrac, DecVal.written, natValue_natDigits]
    push_cast
    field_simp
  have hneg : d.written.neg = decide (d.sign ≠ 0) := by
    rcases hsign with h | h
    · simp [DecVal.written, h]
    · simp [DecVal.written, h]
  rw [Numeral.value, hneg, habs]
  by_cases h : d.sign = 0
  · rw [decide_eq_false (not_not_intro h), if_neg Bool.false_ne_true, if_pos h, one_mul]
  · rw [decide_eq_true h, if_pos rfl, if_neg h, neg_one_mul, neg_div]

theorem decimalRight_iff {d : DecVal} (hscale : d.scale.toNat ≤ 28) :
    DecimalRight d (decimalToString d) ↔ Denotes d.written d := by
  obtain ⟨buf, hok, htext⟩ := decimalToString_written hscale
  constructor
  · rintro ⟨buf', n, hrun, hn, hdenotes⟩
    obtain rfl : buf = buf' := Except.ok.inj (hok.symm.trans hrun)
    rw [Numeral.text_injective (hasDigit_written d) hdenotes.digit (Except.ok.inj (htext.symm.trans hn))]
    exact hdenotes
  · exact fun hdenotes => ⟨buf, d.written, hok, htext, hdenotes⟩

/-- **The value is written exactly** when it fits the low 64 bits, is no negative number without places,
and its power of ten fits too or takes nothing off what is left. -/
theorem decimalToString_right_iff {d : DecVal} (hscale : d.scale.toNat ≤ 28)
    (hsign : d.sign = 0 ∨ d.sign = 0x80) :
    DecimalRight d (decimalToString d) ↔ d.hi32 = 0 ∧ (d.sign = 0 ∨ d.scale ≠ 0) ∧
      (d.scale.toNat ≤ 19 ∨ d.lo64.toNat < 10 ^ d.scale.toNat % 0x10000000000000000) := by
  -- both values are the same sign and power of ten around a whole number
  have hvalue (hplaces : d.written.frac.map List.length = if d.scale = 0 then none else some d.scale.toNat) :
      d.written.value = d.value ↔
        d.hi32 = 0 ∧ (d.scale.toNat ≤ 19 ∨ d.lo64.toNat < 10 ^ d.scale.toNat % 0x10000000000000000) := by
    have hpow : (10 : ℚ) ^ d.scale.toNat ≠ 0 := pow_ne_zero _ (by norm_num)
    have hunit : (if d.sign = 0 then (1 : ℚ) else -1) ≠ 0 := by
      split <;> norm_num
    have hhi : d.hi32 = 0 ↔ d.hi32.toNat = 0 := ⟨fun h => by rw [h]; rfl, fun h => BitVec.eq_of_toNat_eq h⟩
    rw [value_written hsign hplaces, DecVal.value, div_left_inj' hpow, mul_right_inj' hunit, Nat.cast_inj, hhi]
    exact quotient_remainder_iff d.lo64.isLt hscale
  rw [decimalRight_iff hscale]
  constructor
  · intro hdenotes
    have hnumber := (hvalue hdenotes.places).mp hdenotes.value
    exact ⟨hnumber.1, (places_written hscale hsign).mp hdenotes.places, hnumber.2⟩
  · rintro ⟨hhi, hpoint, hsize⟩
    have hplaces := (places_written hscale hsign).mpr hpoint
    exact ⟨hasDigit_written d, (hvalue hplaces).mpr ⟨hhi, hsize⟩, hplaces⟩

/-- -12.50. -/
theorem decimalToString_cents : DecimalRight ⟨2, 0x80, 0, 1250⟩ (decimalToString ⟨2, 0x80, 0, 1250⟩) :=
  (decimalToString_right_iff (by decide) (.inr rfl)).mpr (by decide)

/-- -5 is written `-5.0`. -/
theorem decimalToString_minus_five :
    (∃ buf, decimalToString ⟨0, 0x80, 0, 5⟩ = .ok buf ∧
      loadText (some buf) = .ok [0x2d, 0x35, 0x2e, 0x30]) ∧
      ¬ DecimalRight ⟨0, 0x80, 0, 5⟩ (decimalToString ⟨0, 0x80, 0, 5⟩) := by
  constructor
  · obtain ⟨buf, hok, htext⟩ := @decimalToString_written ⟨0, 0x80, 0, 5⟩ (by decide)
    refine ⟨buf, hok, htext.trans (congrArg _ ?_)⟩
    simp [Numeral.text_eq, DecVal.written, DecVal.signscale, DecVal.iMod, natDigits]
    decide
  · rw [decimalRight_iff (by decide)]
    intro hdenotes
    exact absurd ((places_written (by decide) (.inr rfl)).mp hdenotes.places) (by decide)

end WingPhp.Wmic
