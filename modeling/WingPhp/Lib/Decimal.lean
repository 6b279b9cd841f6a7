import Mathlib.Data.Nat.Digits.Lemmas
import Mathlib.Algebra.Order.Field.Power
import Mathlib.Algebra.Order.Field.Rat
import Mathlib.Tactic.Linarith
import Mathlib.Tactic.Ring
import Mathlib.Tactic.FieldSimp

/-!
# Decimal numerals at the front of a text

A numeral is `[-]digits[.digits]`.  `IsReading l r`: `r` is the value of the longest numeral in front
of `l`, or 0 when there is none.  `isReading_iff` finds it by one pass over `l` (`parse`).

`Numeral.text` is a numeral as bytes, `intNumeral` the one a number is printed as; no two numerals have
one text.

`weigh e v` adds up `v` with falling powers of ten, the first of them `10 ^ e`; entries need not be
digits.
-/

namespace Decimal

instance neZero_ten : NeZero 10 := ⟨by decide⟩

inductive Sym where
  | digit (d : Fin 10)
  | minus
  | point
  | other
  deriving DecidableEq, Repr

/-- `frac` is `none` without a point. -/
structure Numeral where
  neg : Bool
  whole : List (Fin 10)
  frac : Option (List (Fin 10))
  deriving DecidableEq, Repr

/-- The number a row of digits stands for. -/
def natValue (ds : List (Fin 10)) : Nat := Nat.ofDigits 10 (ds.reverse.map Fin.val)

namespace Numeral

/-- All but the sign. -/
def body (n : Numeral) : List Sym :=
  n.whole.map .digit ++ n.frac.elim [] fun f => .point :: f.map .digit

def spell (n : Numeral) : List Sym := (if n.neg then [.minus] else []) ++ n.body

/-- The digits behind the point. -/
def fracDigits (n : Numeral) : List (Fin 10) := n.frac.getD []

def HasDigit (n : Numeral) : Prop := n.whole ++ n.fracDigits ≠ []

/-- Without the sign. -/
def absValue (n : Numeral) : ℚ := natValue n.whole + natValue n.fracDigits / 10 ^ n.fracDigits.length

def value (n : Numeral) : ℚ := if n.neg then -n.absValue else n.absValue

end Numeral

/-- The value of the longest numeral in front, and 0 when there is none. -/
def IsReading (l : List Sym) (r : ℚ) : Prop :=
  (∃ n : Numeral, n.HasDigit ∧ n.spell <+: l ∧
    (∀ m : Numeral, m.HasDigit → m.spell <+: l → m.spell.length ≤ n.spell.length) ∧ r = n.value) ∨
  ((∀ n : Numeral, n.HasDigit → ¬ n.spell <+: l) ∧ r = 0)

/-! ## Reading in one pass -/

/-- The digits in front. -/
def digits : List Sym → List (Fin 10)
  | .digit d :: l => d :: digits l
  | _ => []

/-- What is behind them. -/
def behind : List Sym → List Sym
  | .digit _ :: l => behind l
  | l => l

/-- What a `-` in front leaves. -/
def unsigned : List Sym → List Sym
  | .minus :: l => l
  | l => l

/-- The fraction in front. -/
def fraction : List Sym → Option (List (Fin 10))
  | .point :: l => some (digits l)
  | _ => none

def parse (l : List Sym) : Numeral :=
  ⟨l.head? = some .minus, digits (unsigned l), fraction (behind (unsigned l))⟩

theorem digits_append (ds : List (Fin 10)) (l : List Sym) : digits (ds.map .digit ++ l) = ds ++ digits l := by
  induction ds with
  | nil => rfl
  | cons d ds ih => exact congrArg (d :: ·) ih

theorem behind_append (ds : List (Fin 10)) (l : List Sym) : behind (ds.map .digit ++ l) = behind l := by
  induction ds with
  | nil => rfl
  | cons d ds ih => exact ih

theorem digits_behind (l : List Sym) : (digits l).map .digit ++ behind l = l := by
  induction l with
  | nil => rfl
  | cons s l ih =>
    cases s with
    | digit d => exact congrArg (Sym.digit d :: ·) ih
    | minus => rfl
    | point => rfl
    | other => rfl

/-- The fraction in front, and what is left. -/
theorem fraction_append (l : List Sym) :
    ∃ z, l = ((fraction l).elim [] fun f => .point :: f.map .digit) ++ z := by
  cases l with
  | nil => exact ⟨[], rfl⟩
  | cons s l =>
    cases s with
    | point => exact ⟨behind l, congrArg (Sym.point :: ·) (digits_behind l).symm⟩
    | digit d => exact ⟨_, rfl⟩
    | minus => exact ⟨_, rfl⟩
    | other => exact ⟨_, rfl⟩

theorem parse_body_append (l : List Sym) : ∃ z, unsigned l = (parse l).body ++ z := by
  obtain ⟨z, hz⟩ := fraction_append (behind (unsigned l))
  refine ⟨z, ?_⟩
  show unsigned l = (digits (unsigned l)).map .digit ++
    ((fraction (behind (unsigned l))).elim [] fun f => .point :: f.map .digit) ++ z
  rw [List.append_assoc, ← hz, digits_behind]

/-- **What is parsed is in front.** -/
theorem parse_append (l : List Sym) : ∃ z, l = (parse l).spell ++ z := by
  obtain ⟨z, hz⟩ := parse_body_append l
  refine ⟨z, ?_⟩
  rw [Numeral.spell, List.append_assoc, ← hz]
  cases l with
  | nil => rfl
  | cons s l => cases s <;> rfl

section
variable {neg : Bool} {ds : List (Fin 10)}

/-- The sign of a numeral in front, when it is followed by a digit or a point. -/
theorem unsigned_spell {n : Numeral} (h : n.neg = true ∨ n.body ≠ []) (z : List Sym) :
    decide ((n.spell ++ z).head? = some .minus) = n.neg ∧ unsigned (n.spell ++ z) = n.body ++ z := by
  obtain ⟨neg, ds, fr⟩ := n
  cases neg with
  | true => exact ⟨rfl, rfl⟩
  | false =>
    cases ds with
    | cons d ds => exact ⟨rfl, rfl⟩
    | nil =>
      cases fr with
      | some f => exact ⟨rfl, rfl⟩
      | none => exact absurd rfl (h.resolve_left Bool.false_ne_true)

/-- With a point, a numeral in front is the one parsed, but for more digits behind the point. -/
theorem parse_frac (f : List (Fin 10)) (z : List Sym) :
    parse ((⟨neg, ds, some f⟩ : Numeral).spell ++ z) = ⟨neg, ds, some (f ++ digits z)⟩ := by
  obtain ⟨hsign, hbody⟩ := @unsigned_spell ⟨neg, ds, some f⟩ (.inr (by simp [Numeral.body])) z
  have hshape : (⟨neg, ds, some f⟩ : Numeral).body ++ z = ds.map .digit ++ (.point :: (f.map .digit ++ z)) := by
    simp [Numeral.body]
  rw [parse, hsign, hbody, hshape, digits_append, behind_append]
  show (⟨neg, ds ++ [], some (digits (f.map .digit ++ z))⟩ : Numeral) = _
  rw [List.append_nil, digits_append]

/-- Without one, it is the start of it. -/
theorem parse_whole (hds : ds ≠ []) (z : List Sym) :
    parse ((⟨neg, ds, none⟩ : Numeral).spell ++ z) = ⟨neg, ds ++ digits z, fraction (behind z)⟩ := by
  obtain ⟨hsign, hbody⟩ := @unsigned_spell ⟨neg, ds, none⟩ (.inr (by simpa [Numeral.body] using hds)) z
  have hshape : (⟨neg, ds, none⟩ : Numeral).body ++ z = ds.map .digit ++ z := by simp [Numeral.body]
  rw [parse, hsign, hbody, hshape, digits_append, behind_append]

end

theorem length_spell (n : Numeral) : n.spell.length = (if n.neg then 1 else 0) + n.body.length := by
  unfold Numeral.spell
  cases n.neg <;> simp [Nat.add_comm]

theorem length_body (n : Numeral) :
    n.body.length = n.whole.length + n.frac.elim 0 fun f => f.length + 1 := by
  unfold Numeral.body
  cases n.frac <;> simp

/-- **The longest.**  A numeral in front is no longer than the one parsed, which has a digit then. -/
theorem parse_longest {n : Numeral} {l : List Sym} (hn : n.HasDigit) (hl : n.spell <+: l) :
    (parse l).HasDigit ∧ n.spell.length ≤ (parse l).spell.length := by
  obtain ⟨z, rfl⟩ := hl
  obtain ⟨neg, ds, fr⟩ := n
  cases fr with
  | some f =>
    rw [parse_frac]
    refine ⟨fun h => hn ?_, ?_⟩
    · simp only [Numeral.fracDigits, Option.getD_some, List.append_eq_nil_iff] at h ⊢
      exact ⟨h.1, h.2.1⟩
    · rw [length_spell, length_spell, length_body, length_body]
      simp
  | none =>
    have hds : ds ≠ [] := by simpa [Numeral.HasDigit, Numeral.fracDigits] using hn
    rw [parse_whole hds]
    refine ⟨fun h => hds ?_, ?_⟩
    · simp only [List.append_eq_nil_iff] at h
      exact h.1.1
    · rw [length_spell, length_spell, length_body, length_body]
      simp only [Option.elim_none, List.length_append]
      omega

/-- No spelling is that of two numerals. -/
theorem parse_spell {n : Numeral} (hn : n.HasDigit) : parse n.spell = n := by
  rw [← List.append_nil n.spell]
  obtain ⟨neg, ds, fr⟩ := n
  cases fr with
  | some f =>
    rw [parse_frac]
    show (⟨neg, ds, some (f ++ [])⟩ : Numeral) = _
    rw [List.append_nil]
  | none =>
    have hds : ds ≠ [] := by simpa [Numeral.HasDigit, Numeral.fracDigits] using hn
    rw [parse_whole hds]
    show (⟨neg, ds ++ [], none⟩ : Numeral) = _
    rw [List.append_nil]

theorem value_of_no_digit {n : Numeral} (hn : ¬ n.HasDigit) : n.value = 0 := by
  obtain ⟨hwhole, hfrac⟩ := List.append_eq_nil_iff.mp (not_not.mp hn)
  have habs : n.absValue = 0 := by
    rw [Numeral.absValue, hwhole, hfrac]
    simp [natValue]
  rw [Numeral.value, habs, neg_zero, ite_self]

/-- **The reading of a text.** -/
theorem isReading_iff {l : List Sym} {r : ℚ} : IsReading l r ↔ r = (parse l).value := by
  obtain ⟨z, hz⟩ := parse_append l
  have hfront : (parse l).spell <+: l := ⟨z, hz.symm⟩
  constructor
  · rintro (⟨n, hn, hl, hlongest, rfl⟩ | ⟨hnone, rfl⟩)
    · obtain ⟨hdigit, hle⟩ := parse_longest hn hl
      have hlen := Nat.le_antisymm hle (hlongest _ hdigit hfront)
      have hsame : n.spell = (parse l).spell :=
        (List.prefix_of_prefix_length_le hl hfront hle).eq_of_length hlen
      have heq := congrArg parse hsame
      rw [parse_spell hn, parse_spell hdigit] at heq
      rw [heq]
    · exact (value_of_no_digit fun h => hnone _ h hfront).symm
  · rintro rfl
    by_cases hdigit : (parse l).HasDigit
    · exact .inl ⟨_, hdigit, hfront, fun m hm hl => (parse_longest hm hl).2, rfl⟩
    · refine .inr ⟨fun n hn hl => hdigit (parse_longest hn hl).1, value_of_no_digit hdigit⟩

/-! ## Writing -/

def Sym.byte : Sym → UInt8
  | .digit d => UInt8.ofNat (48 + d.val)
  | .minus => 45
  | .point => 46
  | .other => 0

/-- What a byte is in a numeral. -/
def Sym.ofByte (c : UInt8) : Sym :=
  if h : 48 ≤ c.toNat ∧ c.toNat ≤ 57 then .digit ⟨c.toNat - 48, by omega⟩
  else if c = 45 then .minus
  else if c = 46 then .point
  else .other

theorem Sym.ofByte_byte : Function.LeftInverse Sym.ofByte Sym.byte := by
  intro s
  cases s with
  | digit d =>
    revert d
    decide
  | minus => rfl
  | point => rfl
  | other => rfl

theorem Sym.byte_injective : Function.Injective Sym.byte := Sym.ofByte_byte.injective

def digitText (ds : List (Fin 10)) : List UInt8 := (ds.map Sym.digit).map Sym.byte

namespace Numeral

def text (n : Numeral) : List UInt8 := n.spell.map Sym.byte

theorem text_eq (n : Numeral) :
    n.text = (if n.neg then [45] else []) ++ (digitText n.whole ++ n.frac.elim [] fun f => 46 :: digitText f) := by
  obtain ⟨neg, ds, fr⟩ := n
  cases neg <;> cases fr <;> simp [text, spell, body, digitText, Sym.byte]

/-- **One text, one numeral.** -/
theorem text_injective {n m : Numeral} (hn : n.HasDigit) (hm : m.HasDigit) (h : n.text = m.text) : n = m := by
  rw [← parse_spell hn, ← parse_spell hm, List.map_injective_iff.mpr Sym.byte_injective h]

end Numeral

theorem map_ofByte_digitText (ds : List (Fin 10)) : (digitText ds).map Sym.ofByte = ds.map .digit := by
  rw [digitText, List.map_map, Sym.ofByte_byte.comp_eq_id, List.map_id]

/-- The bytes of digits. -/
theorem mem_digitText {ds : List (Fin 10)} {c : UInt8} (h : c ∈ digitText ds) : 48 ≤ c.toNat ∧ c.toNat ≤ 57 := by
  have hbyte : ∀ d : Fin 10, 48 ≤ (Sym.digit d).byte.toNat ∧ (Sym.digit d).byte.toNat ≤ 57 := by decide
  obtain ⟨s, hs, rfl⟩ := List.mem_map.mp h
  obtain ⟨d, -, rfl⟩ := List.mem_map.mp hs
  exact hbyte d

theorem zero_not_mem_digitText (ds : List (Fin 10)) : 0 ∉ digitText ds := fun h =>
  absurd (mem_digitText h).1 (by decide)

@[simp] theorem length_digitText (ds : List (Fin 10)) : (digitText ds).length = ds.length := by
  rw [digitText, List.length_map, List.length_map]

theorem Numeral.zero_not_mem_text (n : Numeral) : 0 ∉ n.text := by
  rw [text_eq]
  have hwhole := zero_not_mem_digitText n.whole
  cases hfrac : n.frac with
  | none => cases n.neg <;> simp [hwhole]
  | some f =>
    have hf := zero_not_mem_digitText f
    cases n.neg <;> simp [hwhole, hf]

/-- The digits of a number; no zero leads, but for 0 itself. -/
def natDigits (n : Nat) : List (Fin 10) := if n = 0 then [0] else (Nat.digits 10 n).reverse.map (Fin.ofNat 10)

theorem natValue_natDigits (n : Nat) : natValue (natDigits n) = n := by
  by_cases hn : n = 0
  · subst hn
    rfl
  · have hmap : (Nat.digits 10 n).map (Fin.val ∘ Fin.ofNat 10) = Nat.digits 10 n := by
      refine (List.map_congr_left fun d hd => ?_).trans (List.map_id _)
      exact Nat.mod_eq_of_lt (Nat.digits_lt_base (by decide) hd)
    rw [natDigits, if_neg hn, natValue, ← List.map_reverse, List.reverse_reverse, List.map_map, hmap,
      Nat.ofDigits_digits]

theorem natDigits_ne_nil (n : Nat) : natDigits n ≠ [] := by
  unfold natDigits
  split
  · simp
  · next hn => simpa [Nat.digits_eq_nil_iff_eq_zero] using hn

theorem length_natDigits_le_iff {n k : Nat} (hk : 0 < k) : (natDigits n).length ≤ k ↔ n < 10 ^ k := by
  unfold natDigits
  split
  · next hn =>
    subst hn
    exact iff_of_true hk (Nat.pow_pos (by decide))
  · rw [List.length_map, List.length_reverse]
    exact Nat.digits_length_le_iff (by decide) n

theorem length_natDigits_le {n k : Nat} (hk : 0 < k) (h : n < 10 ^ k) : (natDigits n).length ≤ k :=
  (length_natDigits_le_iff hk).mpr h

theorem natValue_lt (ds : List (Fin 10)) : natValue ds < 10 ^ ds.length := by
  have h := Nat.ofDigits_lt_base_pow_length (b := 10) (l := ds.reverse.map Fin.val) (by decide) (by
    intro x hx
    obtain ⟨d, -, rfl⟩ := List.mem_map.mp hx
    exact d.isLt)
  rwa [List.length_map, List.length_reverse] at h

theorem natValue_zeros (k : Nat) (ds : List (Fin 10)) :
    natValue (List.replicate k 0 ++ ds) = natValue ds := by
  rw [natValue, natValue, List.reverse_append, List.map_append, Nat.ofDigits_append, List.reverse_replicate,
    List.map_replicate, Fin.val_zero, Nat.ofDigits_replicate_zero, Nat.mul_zero, Nat.add_zero]

/-- What a number is printed as. -/
def intNumeral (v : Int) : Numeral := ⟨decide (v < 0), natDigits v.natAbs, none⟩

theorem hasDigit_intNumeral (v : Int) : (intNumeral v).HasDigit := by
  intro h
  exact natDigits_ne_nil _ (List.append_eq_nil_iff.mp h).1

theorem value_intNumeral (v : Int) : (intNumeral v).value = v := by
  have habs : (intNumeral v).absValue = ((v.natAbs : Int) : ℚ) := by
    show (natValue (natDigits v.natAbs) : ℚ) + natValue [] / 10 ^ 0 = _
    rw [natValue_natDigits, show natValue [] = 0 from rfl, Nat.cast_zero, zero_div, add_zero, Int.cast_natCast]
  rw [Numeral.value, habs]
  by_cases hv : v < 0
  · rw [intNumeral, decide_eq_true hv, if_pos rfl, show (v.natAbs : Int) = -v by omega, Int.cast_neg, neg_neg]
  · rw [intNumeral, decide_eq_false hv, if_neg Bool.false_ne_true, show (v.natAbs : Int) = v by omega]

/-- **A number is printed as itself only.** -/
theorem intNumeral_text_inj {v w : Int} : (intNumeral v).text = (intNumeral w).text ↔ v = w := by
  constructor
  · intro h
    have hvalue := congrArg Numeral.value
      (Numeral.text_injective (hasDigit_intNumeral v) (hasDigit_intNumeral w) h)
    rw [value_intNumeral, value_intNumeral] at hvalue
    exact_mod_cast hvalue
  · rintro rfl
    rfl

theorem length_intNumeral_text_le {v : Int} {k : Nat} (hk : 0 < k) (h : v.natAbs < 10 ^ k) :
    (intNumeral v).text.length ≤ k + 1 := by
  have hlen := length_natDigits_le hk h
  rw [Numeral.text_eq, intNumeral]
  by_cases hv : v < 0
  · simp [hv]
    omega
  · simp [hv]
    omega

/-! ## Falling powers of ten -/

def weigh (e : ℤ) : List ℤ → ℚ
  | [] => 0
  | a :: v => a * 10 ^ e + weigh (e - 1) v

theorem ten_pow_succ (e : ℤ) : (10 : ℚ) ^ e = 10 * 10 ^ (e - 1) := by
  rw [← zpow_one_add₀ (by norm_num)]
  congr 1
  omega

theorem weigh_append (e : ℤ) (v w : List ℤ) : weigh e (v ++ w) = weigh e v + weigh (e - v.length) w := by
  induction v generalizing e with
  | nil => simp [weigh]
  | cons a v ih =>
    have hpos : e - 1 - (v.length : ℤ) = e - (a :: v).length := by
      rw [List.length_cons]
      omega
    show a * 10 ^ e + weigh (e - 1) (v ++ w) = a * 10 ^ e + weigh (e - 1) v + _
    rw [ih, hpos, add_assoc]

/-- All powers moved up. -/
theorem weigh_add (e : ℤ) (k : Nat) (v : List ℤ) : weigh (e + k) v = 10 ^ k * weigh e v := by
  induction v generalizing e with
  | nil => simp [weigh]
  | cons a v ih =>
    have hpow : (10 : ℚ) ^ (e + k) = 10 ^ k * 10 ^ e := by
      rw [zpow_add₀ (by norm_num), zpow_natCast, mul_comm]
    have hpos : e + (k : ℤ) - 1 = e - 1 + k := by omega
    show a * 10 ^ (e + k) + weigh (e + k - 1) v = 10 ^ k * (a * 10 ^ e + weigh (e - 1) v)
    rw [hpow, hpos, ih]
    ring

/-- Digits, down to the ones. -/
theorem weigh_digits (ds : List (Fin 10)) :
    weigh (ds.length - 1) (ds.map fun d => (d.val : ℤ)) = natValue ds := by
  induction ds with
  | nil => simp [weigh, natValue]
  | cons d ds ih =>
    have hlen : ((d :: ds).length : ℤ) - 1 = ds.length := by
      rw [List.length_cons]
      omega
    rw [hlen]
    show ((d.val : ℤ) : ℚ) * 10 ^ (ds.length : ℤ) + weigh (ds.length - 1) (ds.map fun d => (d.val : ℤ)) = _
    rw [ih, natValue, natValue, List.reverse_cons, List.map_append, Nat.ofDigits_append]
    simp
    ring

/-- Digits behind the point. -/
theorem weigh_fraction (ds : List (Fin 10)) :
    weigh (-1) (ds.map fun d => (d.val : ℤ)) = natValue ds / 10 ^ ds.length := by
  have h := weigh_add (-1) ds.length (ds.map fun d => (d.val : ℤ))
  rw [show (-1 : ℤ) + ds.length = ds.length - 1 by omega, weigh_digits] at h
  rw [h]
  field_simp

section
variable {v : List ℤ}

/-- What entries from -3 to 9 add up to. -/
theorem weigh_bounds (h : ∀ a ∈ v, -3 ≤ a ∧ a ≤ 9) (e : ℤ) :
    -(10 * 10 ^ e / 3) < weigh e v ∧ weigh e v < 10 * 10 ^ e := by
  induction v generalizing e with
  | nil =>
    have hpos : (0 : ℚ) < 10 ^ e := zpow_pos (by norm_num) e
    constructor <;> simp only [weigh] <;> linarith
  | cons a v ih =>
    obtain ⟨hlo, hhi⟩ := h a (List.mem_cons_self ..)
    obtain ⟨hlow, hhigh⟩ := ih (fun b hb => h b (List.mem_cons_of_mem _ hb)) (e - 1)
    rw [← ten_pow_succ] at hlow hhigh
    have hpos : (0 : ℚ) < 10 ^ e := zpow_pos (by norm_num) e
    have hlo' : (-3 : ℚ) * 10 ^ e ≤ a * 10 ^ e := mul_le_mul_of_nonneg_right (by exact_mod_cast hlo) hpos.le
    have hhi' : (a : ℚ) * 10 ^ e ≤ 9 * 10 ^ e := mul_le_mul_of_nonneg_right (by exact_mod_cast hhi) hpos.le
    constructor <;> simp only [weigh] <;> linarith

/-- Such entries add up to 0 only when each is 0: the first that is not outweighs what follows. -/
theorem weigh_eq_zero_iff (h : ∀ a ∈ v, -3 ≤ a ∧ a ≤ 9) (e : ℤ) : weigh e v = 0 ↔ ∀ a ∈ v, a = 0 := by
  induction v generalizing e with
  | nil => exact iff_of_true rfl (List.forall_mem_nil _)
  | cons a v ih =>
    have htail : ∀ b ∈ v, -3 ≤ b ∧ b ≤ 9 := fun b hb => h b (List.mem_cons_of_mem _ hb)
    obtain ⟨hlow, hhigh⟩ := weigh_bounds htail (e - 1)
    rw [← ten_pow_succ] at hlow hhigh
    have hpos : (0 : ℚ) < 10 ^ e := zpow_pos (by norm_num) e
    rw [List.forall_mem_cons, ← ih htail (e - 1)]
    rcases lt_trichotomy a 0 with ha | rfl | ha
    · have hle : (a : ℚ) * 10 ^ e ≤ -1 * 10 ^ e :=
        mul_le_mul_of_nonneg_right (by exact_mod_cast (show a ≤ -1 by omega)) hpos.le
      refine iff_of_false (ne_of_lt ?_) fun hzero => by omega
      simp only [weigh]
      linarith
    · simp [weigh]
    · have hle : (1 : ℚ) * 10 ^ e ≤ a * 10 ^ e :=
        mul_le_mul_of_nonneg_right (by exact_mod_cast (show 1 ≤ a by omega)) hpos.le
      refine iff_of_false (ne_of_gt ?_) fun hzero => by omega
      simp only [weigh]
      linarith

/-- A number moved up by `k` digits, with `k` of them among the entries behind it, is itself only when
nothing moved it and nothing was added. -/
theorem moved_eq_iff (h : ∀ a ∈ v, -3 ≤ a ∧ a ≤ 9) (n k : Nat) :
    10 ^ k * (n : ℚ) + weigh (k - 1) v = n ↔ (k = 0 ∨ n = 0) ∧ ∀ a ∈ v, a = 0 := by
  rw [← weigh_eq_zero_iff h (k - 1)]
  constructor
  · intro heq
    have hmoved : k = 0 ∨ n = 0 := by
      by_contra hnot
      obtain ⟨hk, hn⟩ := not_or.mp hnot
      obtain ⟨hlow, -⟩ := weigh_bounds h ((k : ℤ) - 1)
      rw [← ten_pow_succ, zpow_natCast] at hlow
      have hn' : (1 : ℚ) ≤ n := by exact_mod_cast Nat.one_le_iff_ne_zero.mpr hn
      have hk' : (10 : ℚ) ≤ 10 ^ k := by
        calc (10 : ℚ) = 10 ^ 1 := (pow_one _).symm
          _ ≤ 10 ^ k := pow_le_pow_right₀ (by norm_num) (Nat.one_le_iff_ne_zero.mpr hk)
      have hgrow : (10 : ℚ) ^ k - 1 ≤ (10 ^ k - 1) * n := le_mul_of_one_le_right (by linarith) hn'
      linarith
    refine ⟨hmoved, ?_⟩
    rcases hmoved with rfl | rfl
    · simpa using heq
    · simpa using heq
  · rintro ⟨rfl | rfl, hzero⟩
    · simpa using hzero
    · simpa using hzero

end

end Decimal
